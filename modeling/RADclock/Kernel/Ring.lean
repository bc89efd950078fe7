import RADclock.Kernel.Stores
import RADclock.Lib.GenRing

/-!
# Readers of the tick beside the windup (`kern_tc.c`)

`ffclock_windup` and the three readers of the tick share the ring of `fftimehands` without a lock.
Here they are processes that take turns at single accesses, in any order: the windup with its
stores in program order, the readers with their loads.

- `TickField`, `TickReader.loads`: what the readers load from a tick.
- `TickInput`, `windupPlan`: a windup, with the globals as it finds them.
- `tickAfter`: the tick that windups lead to when nothing runs beside them.
- `step_windupPlan`: there the ring goes through the states of `ffclockWindup`.
- `accepted_tick`: what a reader accepts is from one tick.
- `returned_tick`: what it returns is what it would return for that tick.
-/

namespace RADclock.Kernel

open Lib Lib.GenRing

/-! ## Readers -/

/-- One of the words of a `struct bintime`. -/
inductive TimeWord where
  | sec | frac
deriving DecidableEq, Repr

def TimeWord.get : TimeWord → Bintime → BitVec 64
  | .sec, t => t.sec
  | .frac, t => t.frac

/-- What the readers load from a tick. -/
inductive TickField where
  | tickTime (w : TimeWord)
  | tickTimeMono (w : TimeWord)
  | tickTimeDiff (w : TimeWord)
  | ffclockBoottime (w : TimeWord)
  | tickFfcount | period | periodMono
deriving DecidableEq, Repr

def TickField.get : TickField → Fftimehands → BitVec 64
  | .tickTime w, t => w.get t.tickTime
  | .tickTimeMono w, t => w.get t.tickTimeMono
  | .tickTimeDiff w, t => w.get t.tickTimeDiff
  | .ffclockBoottime w, t => w.get t.ffclockBoottime
  | .tickFfcount, t => t.tickFfcount
  | .period, t => t.cdat.period
  | .periodMono, t => t.periodMono

/-- A call of one of the readers. -/
inductive TickReader where
  | lastTick (flags : BitVec 32)
  | convertAbs (ffcount : BitVec 64) (flags : BitVec 32)
  | convertDiff (ffdelta : BitVec 64)

/-- The UTC of the tick's start, by the clock selected. -/
def startLoads (flags : BitVec 32) : List TickField :=
  if has flags FFCLOCK_MONO then [.tickTimeMono .sec, .tickTimeMono .frac]
  else if has flags FFCLOCK_DIFF then [.tickTimeDiff .sec, .tickTimeDiff .frac]
  else [.tickTime .sec, .tickTime .frac]

/-- `bintime_sub` of the boot time, for an uptime. -/
def bootLoads (flags : BitVec 32) : List TickField :=
  if has flags FFCLOCK_UPTIME then [.ffclockBoottime .frac, .ffclockBoottime .sec] else []

/-- The loads between the two of the generation, in program order. `ffclock_convert_abs` loads
`tick_ffcount` for each of its comparisons and for the difference. -/
def TickReader.loads : TickReader → List TickField
  | .lastTick flags => startLoads flags ++ [.tickFfcount] ++ bootLoads flags
  | .convertAbs _ flags =>
    [.tickFfcount, .tickFfcount] ++ startLoads flags ++
      [if has flags FFCLOCK_MONO then .periodMono else .period, .tickFfcount] ++ bootLoads flags
  | .convertDiff _ => [.period]

/-- Less the boot time that was loaded, for an uptime. -/
def lessBoot (bt : Bintime) : List (BitVec 64) → Option Bintime
  | [] => some bt
  | [frac, sec] => some (bt.sub ⟨sec, frac⟩)
  | _ => none

/-- What a call returns, from the values it has loaded: a counter value and its time, or the
length of an interval. -/
def TickReader.returned : TickReader → List (BitVec 64) → Option (BitVec 64 × Bintime)
  | .lastTick _, sec :: frac :: count :: boot =>
    (lessBoot ⟨sec, frac⟩ boot).map fun bt => (count, bt)
  | .convertAbs ffcount _, count :: count' :: sec :: frac :: period :: count'' :: boot =>
    let ffdelta := if count < ffcount then ffcount - count' else count' - ffcount
    let bt2 := ffclockConvertDelta ffdelta period
    let bt : Bintime := ⟨sec, frac⟩
    let bt := if count'' < ffcount then bt.add bt2 else bt.sub bt2
    (lessBoot bt boot).map fun bt => (ffcount, bt)
  | .convertDiff ffdelta, [period] => some (ffdelta, ffclockConvertDelta ffdelta period)
  | _, _ => none

/-- The call with nothing beside it. -/
def TickReader.call : TickReader → FfState → BitVec 64 × Bintime
  | .lastTick flags, s => ffclockLastTick flags s
  | .convertAbs ffcount flags, s => (ffcount, ffclockConvertAbs ffcount flags s)
  | .convertDiff ffdelta, s => (ffdelta, ffclockConvertDiff ffdelta s)

theorem lessBoot_bootLoads (flags : BitVec 32) (t : Fftimehands) (bt : Bintime) :
    lessBoot bt ((bootLoads flags).map fun f => f.get t) = some (t.sinceBoot flags bt) := by
  unfold bootLoads Fftimehands.sinceBoot
  split <;> rfl

theorem startLoads_get (flags : BitVec 32) (t : Fftimehands) :
    (startLoads flags).map (fun f => f.get t) = [(t.start flags).sec, (t.start flags).frac] := by
  unfold startLoads Fftimehands.start
  split
  · rfl
  · split <;> rfl

/-- Loading all values from one tick is calling the reader for that tick. -/
theorem returned_loads (call : TickReader) (s : FfState) :
    call.returned (call.loads.map fun f => f.get s.tick) = some (call.call s) := by
  cases call with
  | lastTick flags =>
    simp only [TickReader.loads, List.map_append, startLoads_get, List.map_cons, List.map_nil,
      List.cons_append, List.nil_append, TickReader.returned, lessBoot_bootLoads, Option.map_some]
    rfl
  | convertAbs ffcount flags =>
    simp only [TickReader.loads, List.map_append, startLoads_get, List.map_cons, List.map_nil,
      List.cons_append, List.nil_append, TickReader.returned, lessBoot_bootLoads, Option.map_some,
      TickReader.call, ffclockConvertAbs]
    by_cases hmono : has flags FFCLOCK_MONO
    · simp only [if_pos hmono]
      rfl
    · simp only [if_neg hmono]
      rfl
  | convertDiff ffdelta => rfl

/-! ## The windup -/

/-- What a windup starts from, beside the ring: its arguments and the globals. -/
structure TickInput where
  tcFrequency : BitVec 64
  delta : BitVec 32
  reset : Option (Bintime × Bintime)
  ffclockData : FfclockData
  ffclockStatus : BitVec 32
  ffclockUpdated : BitVec 8
  sysclockActive : Sysclock

/-- The state that a windup finds. -/
def TickInput.state (a : TickInput) (ring : Ring 10 8 Fftimehands) : FfState where
  ffth i := { ring.slot i with gen := ring.gen i }
  fftimehands := ring.cur
  ffclockData := a.ffclockData
  ffclockStatus := a.ffclockStatus
  ffclockUpdated := a.ffclockUpdated
  sysclockActive := a.sysclockActive

/-- The stores of a windup. It is the only writer of the ring, so that their values are those of
the ring it starts from. -/
def windupPlan (a : TickInput) (ring : Ring 10 8 Fftimehands) :
    Option (List (Fftimehands → Fftimehands)) :=
  (windupStores a.tcFrequency a.delta a.reset (a.state ring)).map fun stores =>
    stores.map TickStore.apply

/-- `ffclock_init` clears all slots. -/
def blankTick : Fftimehands :=
  ⟨⟨.clear, 0, 0, 0, 0, 0, 0, 0, 0, 0⟩, .clear, .clear, .clear, .clear, .clear, 0, 0, 0⟩

abbrev TickSystem (ι : Type) : Type :=
  GenRing.System 10 8 Fftimehands TickField (BitVec 64) TickInput ι

def tickInit (ι : Type) : TickSystem ι := ringInit blankTick

/-- One access of a windup or a reader. -/
def tickStep {ι : Type} [DecidableEq ι] (calls : ι → TickReader) :
    TickSystem ι → GenRing.Who TickInput ι → TickSystem ι :=
  ringStep windupPlan TickField.get fun i => (calls i).loads

/-- Windups with nothing beside them. -/
def ringAfter (as : List TickInput) : Ring 10 8 Fftimehands :=
  runSteps (Ring.step windupPlan) (tickInit Unit).ring as

/-- The tick that the windups lead to. -/
def tickAfter (as : List TickInput) : Fftimehands := (ringAfter as).current

/-! ## The ring and the state -/

theorem storeTick_gen (stores : List TickStore) (g : BitVec 8) : ∀ t : Fftimehands,
    storeTick stores { t with gen := g } = { storeTick stores t with gen := g } := by
  induction stores with
  | nil => exact fun _ => rfl
  | cons st stores ih =>
    intro t
    have hst : st.apply { t with gen := g } = { st.apply t with gen := g } := by cases st <;> rfl
    rw [storeTick_cons, storeTick_cons, hst]
    exact ih _

theorem storeAll_map (stores : List TickStore) : ∀ t : Fftimehands,
    storeAll (stores.map TickStore.apply) t = storeTick stores t := by
  induction stores with
  | nil => exact fun _ => rfl
  | cons st stores ih => exact fun t => ih (st.apply t)

theorem ring_ignoreStale (s : FfState) :
    (ignoreStale s).ffth = s.ffth ∧ (ignoreStale s).fftimehands = s.fftimehands := by
  unfold ignoreStale
  split <;> exact ⟨rfl, rfl⟩

/-- A projection writes nothing of the ring itself. -/
theorem ring_windupProject (ffdelta : BitVec 64) (s : FfState) (ffth : Fftimehands) :
    (windupProject ffdelta s ffth).1.ffth = s.ffth ∧
      (windupProject ffdelta s ffth).1.fftimehands = s.fftimehands := by
  unfold windupProject
  simp only
  split <;> exact ⟨rfl, rfl⟩

/-- A windup replaces one slot and makes it the current one. -/
theorem windup_ffth {tcFrequency : BitVec 64} {delta : BitVec 32}
    {reset : Option (Bintime × Bintime)} {s s' : FfState}
    (h : ffclockWindup tcFrequency delta reset s = some s') :
    s'.ffth = Function.update s.ffth (s.fftimehands + 1) s'.tick ∧
      s'.fftimehands = s.fftimehands + 1 ∧ s'.tick.gen = bumpGen s.stale.gen := by
  -- every branch ends in the same publication
  have hpublish : ∀ p : FfState × Fftimehands, p.1.ffth = s.ffth →
      p.1.fftimehands = s.fftimehands → s' = publish p.1 p.2 →
      s'.ffth = Function.update s.ffth (s.fftimehands + 1) s'.tick ∧
        s'.fftimehands = s.fftimehands + 1 ∧ s'.tick.gen = bumpGen s.stale.gen := by
    rintro p hffth hcur rfl
    rw [tick_publish]
    refine ⟨?_, ?_, ?_⟩
    · show Function.update p.1.ffth (p.1.fftimehands + 1) _ = _
      rw [hffth, hcur]
    · show p.1.fftimehands + 1 = _
      rw [hcur]
    · show bumpGen (p.1.ffth (p.1.fftimehands + 1)).gen = _
      rw [hffth, hcur]
      rfl
  obtain ⟨hffth, hcur⟩ := ring_ignoreStale s
  -- reset, adoption, projection
  rcases windup_cases h with ⟨fb, utc, p, -, hp, hs'⟩ | ⟨-, -, hs'⟩ | ⟨p, -, -, hp, hs'⟩
  · obtain ⟨period, -, rfl⟩ := Option.map_eq_some_iff.mp hp
    exact hpublish _ rfl rfl hs'
  · obtain ⟨hffth', hcur'⟩ :=
      ring_windupProject (delta.setWidth 64) (ignoreStale s) (bootSlot delta s)
    exact hpublish _ (hffth'.trans hffth) (hcur'.trans hcur) hs'
  · obtain ⟨periodMono, -, rfl⟩ := Option.map_eq_some_iff.mp hp
    exact hpublish _ hffth hcur hs'

/-- With nothing beside them, the stores of a windup take the ring to that of `ffclockWindup`. -/
theorem step_windupPlan (a : TickInput) (ring : Ring 10 8 Fftimehands) :
    match ffclockWindup a.tcFrequency a.delta a.reset (a.state ring) with
    | some s' => (a.state (Ring.step windupPlan ring a)).ffth = s'.ffth ∧
        (Ring.step windupPlan ring a).cur = s'.fftimehands
    | none => Ring.step windupPlan ring a = ring := by
  cases hs' : ffclockWindup a.tcFrequency a.delta a.reset (a.state ring) with
  | none => simp [Ring.step, windupPlan, windupStores, hs']
  | some s' =>
    -- the stores rebuild the record the whole windup leaves
    obtain ⟨stores, hstores⟩ : ∃ stores,
        windupStores a.tcFrequency a.delta a.reset (a.state ring) = some stores :=
      ⟨_, by rw [windupStores, hs']; rfl⟩
    obtain ⟨s'', hs'', hleft⟩ := storeTick_windupStores hstores
    obtain rfl := Option.some.inj (hs'.symm.trans hs'')
    obtain ⟨hffth, hcur, hgen⟩ := windup_ffth hs'
    have hstep : Ring.step windupPlan ring a = ring.rewrite (stores.map TickStore.apply) := by
      simp only [Ring.step, windupPlan, hstores, Option.map_some]
    refine ⟨funext fun i => ?_, by rw [hstep, hcur]; rfl⟩
    rw [hstep, hffth]
    show ({ (ring.rewrite _).slot i with gen := (ring.rewrite _).gen i } : Fftimehands) = _
    -- they reach no slot but the next one
    by_cases hi : i = ring.cur + 1
    · have hcell : storeTick stores { ring.slot (ring.cur + 1) with gen := ring.gen (ring.cur + 1) }
          = { s'.tick with gen := ring.gen (ring.cur + 1) } := hleft
      rw [storeTick_gen] at hcell
      have hgen' : s'.tick.gen = bump (ring.gen (ring.cur + 1)) := hgen
      subst hi
      show _ = Function.update (a.state ring).ffth (ring.cur + 1) s'.tick (ring.cur + 1)
      rw [Function.update_self]
      show ({ Function.update ring.slot (ring.cur + 1) _ (ring.cur + 1) with
        gen := Function.update ring.gen (ring.cur + 1) _ (ring.cur + 1) } : Fftimehands) = _
      rw [Function.update_self, Function.update_self, storeAll_map, ← hgen']
      exact congrArg (fun t : Fftimehands => { t with gen := s'.tick.gen }) hcell
    · show _ = Function.update (a.state ring).ffth (ring.cur + 1) s'.tick i
      rw [Function.update_of_ne hi]
      show ({ Function.update ring.slot (ring.cur + 1) _ i with
        gen := Function.update ring.gen (ring.cur + 1) _ i } : Fftimehands) = _
      rw [Function.update_of_ne hi, Function.update_of_ne hi]
      rfl

/-! ## What readers accept -/

/-- Fewer than `10 * 254` ticks complete during an attempt to read. -/
def FewTicks {ι : Type} (s : TickSystem ι) : GenRing.Who TickInput ι → Prop
  | .reader i => (s.readers i).pc = .test → s.completed - (s.readers i).since < 10 * 254
  | _ => True

instance {ι : Type} (s : TickSystem ι) : DecidablePred (FewTicks s)
  | .reader i => inferInstanceAs (Decidable ((s.readers i).pc = .test → _ < _))
  | .begin _ => inferInstanceAs (Decidable True)
  | .writer => inferInstanceAs (Decidable True)

theorem fewTicks_iff {ι : Type} (s : TickSystem ι) (who : GenRing.Who TickInput ι) :
    FewTicks s who ↔ GenRing.Brief s who := by
  cases who with
  | begin a => exact Iff.rfl
  | writer => exact Iff.rfl
  | reader i => exact Iff.rfl

/-- In any interleaving in which fewer than `10 * 254` ticks complete during an attempt to read,
the values that a reader accepts are all from one tick. -/
theorem accepted_tick {ι : Type} [DecidableEq ι] (calls : ι → TickReader)
    (sched : List (GenRing.Who TickInput ι))
    (hsched : StepsMeet FewTicks (tickStep calls) (tickInit ι) sched) (i : ι) :
    let s := runSteps (tickStep calls) (tickInit ι) sched
    (s.readers i).pc = .left → ∃ k, 0 < k ∧ k ≤ s.inputs.length ∧
      (s.readers i).got.reverse =
        (calls i).loads.map fun f => (f, f.get (tickAfter (s.inputs.take k))) := by
  have hbrief := (stepsMeet_congr (I := fun _ => True) (fun _ _ _ => trivial)
    (fun s who _ => fewTicks_iff s who) sched _ trivial).mp hsched
  exact accepted_whole (by decide) windupPlan TickField.get (fun i => (calls i).loads) blankTick
    sched hbrief i

/-- No field is read from the generation. -/
theorem get_gen (f : TickField) (t : Fftimehands) (g : BitVec 8) :
    f.get { t with gen := g } = f.get t := by
  cases f <;> rfl

/-- A reader returns what it would return with nothing beside it, after so many of the windups. -/
theorem returned_tick {ι : Type} [DecidableEq ι] (calls : ι → TickReader)
    (sched : List (GenRing.Who TickInput ι))
    (hsched : StepsMeet FewTicks (tickStep calls) (tickInit ι) sched) (a : TickInput) (i : ι) :
    let s := runSteps (tickStep calls) (tickInit ι) sched
    (s.readers i).pc = .left → ∃ k, 0 < k ∧ k ≤ s.inputs.length ∧
      (calls i).returned ((s.readers i).got.reverse.map Prod.snd) =
        some ((calls i).call (a.state (ringAfter (s.inputs.take k)))) := by
  have hbrief := (stepsMeet_congr (I := fun _ => True) (fun _ _ _ => trivial)
    (fun s who _ => fewTicks_iff s who) sched _ trivial).mp hsched
  intro s hleft
  obtain ⟨k, hpos, hle, hgot⟩ := accepted_whole (by decide) windupPlan TickField.get
    (fun i => (calls i).loads) blankTick sched hbrief i hleft
  have hgot : (s.readers i).got.reverse = (calls i).loads.map fun f =>
      (f, f.get (tickAfter (s.inputs.take k))) := hgot
  refine ⟨k, hpos, hle, ?_⟩
  rw [← returned_loads, hgot, List.map_map]
  congr 1
  apply List.map_congr_left
  intro f _
  exact (get_gen f (tickAfter (s.inputs.take k)) _).symm

/-- `k` steps of one process. -/
def times (k : Nat) (who : GenRing.Who TickInput Unit) : List (GenRing.Who TickInput Unit) :=
  List.replicate k who

/-- A tick, a second one that is half made when a reader starts, and the rest of both. -/
def midWindup : List (GenRing.Who TickInput Unit) :=
  let tick (delta : BitVec 32) : TickInput :=
    { tcFrequency := 1000000000, delta := delta, reset := none
      ffclockData := { blankTick.cdat with period := 18446744073, updateTime := ⟨100, 0⟩ }
      ffclockStatus := 1, ffclockUpdated := 1, sysclockActive := .ff }
  .begin (tick 1000) :: times 50 .writer ++ .begin (tick 2000) :: times 20 .writer ++
    times 3 (.reader ()) ++ times 30 .writer ++ times 4 (.reader ())

theorem accepted_tick_midWindup :
    let s := runSteps (tickStep fun _ => .lastTick 0) (tickInit Unit) midWindup
    (s.readers ()).pc = .left ∧ ∃ k, 0 < k ∧ k ≤ s.inputs.length ∧
      (s.readers ()).got.reverse = (TickReader.lastTick 0).loads.map fun f =>
        (f, f.get (tickAfter (s.inputs.take k))) :=
  ⟨by decide +kernel, accepted_tick (fun _ => .lastTick 0) midWindup (by decide +kernel) ()
    (by decide +kernel)⟩

end RADclock.Kernel
