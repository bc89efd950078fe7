import RADclock.Kernel.Readings
import RADclock.Lib.Runs

/-!
# Daemon updates around a change of counter

`ffclock_updated` counts the updates to process: up with each push of data, down with each change
of counter, back to zero when a windup adopts. Beside the state a run keeps what the operations
were: which push the data to adopt comes from, when the counter was last changed, and which pushes
are to be ignored because of it: the one that is pending at the change, or the next one.

- `UpdateKept`: what a windup owes to the changes before it.
- `UpdateCond`: at a change one update at most is pending and the counter of updates is not at its
  minimum; and no RTC reset comes between a change and the push it waits for.
- `UpdateInv`: what runs that meet the condition keep.

With two updates pending the change leaves one, and the next windup adopts the change's own data as
if it were an update: its time is that of the last update and its counter value that of the tick,
and natFFC jumps back.
-/

namespace RADclock.Kernel

open Lib

/-- The state with what has happened. Operations are numbered. -/
structure Tagged where
  s : FfState
  now : Nat
  /-- The push that `ffclock_data` holds; the kernel writes it, too. -/
  pushed : Option Nat
  lastChange : Option Nat
  /-- Nothing was pending at the change: the next push is to be ignored. -/
  awaiting : Bool
  /-- The pushes to be ignored. -/
  ignored : List Nat

def tagged (s : FfState) : Tagged := ⟨s, 0, none, none, false, []⟩

/-- An update is pending. -/
def pending (s : FfState) : Prop := 0 < s.ffclockUpdated.toInt

instance (s : FfState) : Decidable (pending s) := inferInstanceAs (Decidable (_ < _))

/-- What an operation adds to the record. -/
def Tagged.record (t : Tagged) (s' : FfState) : FfOp → Tagged
  | .setdata _ =>
    { t with
      s := s', now := t.now + 1, pushed := some t.now, awaiting := false
      ignored := if t.awaiting then t.now :: t.ignored else t.ignored }
  | .changeTc _ _ _ =>
    { s := s', now := t.now + 1, pushed := none, lastChange := some t.now
      awaiting := t.awaiting || !decide (pending t.s)
      ignored := if pending t.s then t.pushed.toList ++ t.ignored else t.ignored }
  | .windup _ _ (some _) => { t with s := s', now := t.now + 1, pushed := none }
  | _ => { t with s := s', now := t.now + 1 }

def tagStep (t : Tagged) (op : FfOp) : Option Tagged := (ffStep t.s op).map fun s' => t.record s' op

/-- The record is that of the data: a push is recorded with the data it leaves, and the record is
kept as long as the data is. -/
theorem data_recorded {t t' : Tagged} {op : FfOp} (h : tagStep t op = some t') :
    match op with
    | .setdata cdat => t'.s.ffclockData = cdat ∧ t'.pushed = some t.now
    | .changeTc _ _ _ | .windup _ _ (some _) => t'.s.ffclockData = t'.s.tick.cdat ∧ t'.pushed = none
    | _ => t'.s.ffclockData = t.s.ffclockData ∧ t'.pushed = t.pushed := by
  obtain ⟨s', hs', rfl⟩ := Option.map_eq_some_iff.mp h
  cases op with
  | windup tcFrequency delta reset =>
    -- a windup clears pending data but never writes any
    rcases windup_cases hs' with ⟨fb, utc, p, rfl, hp, rfl⟩ | ⟨rfl, -, rfl⟩ | ⟨p, rfl, -, hp, rfl⟩
    · obtain ⟨period, -, rfl⟩ := Option.map_eq_some_iff.mp hp
      simp only [Tagged.record, tick_publish, and_true]
      rfl
    · refine ⟨?_, rfl⟩
      show (windupProject _ _ _).1.ffclockData = _
      unfold windupProject
      simp only
      split <;> exact ffclockData_ignoreStale t.s
    · obtain ⟨period, -, rfl⟩ := Option.map_eq_some_iff.mp hp
      exact ⟨ffclockData_ignoreStale t.s, rfl⟩
  | changeTc tc tcFrequency ncount =>
    obtain ⟨period, -, rfl⟩ := Option.map_eq_some_iff.mp hs'
    simp only [Tagged.record, tick_publish, and_true]
    rfl
  | setdata cdat =>
    obtain rfl := Option.some.inj hs'
    exact ⟨rfl, rfl⟩
  | setSysclock sysclock =>
    obtain rfl := Option.some.inj hs'
    exact ⟨rfl, rfl⟩

/-- A push made after the change is adopted. -/
def adoptsSince (t : Tagged) (k : Nat) : Prop := adopts t.s ∧ ∃ j ∈ t.pushed, k < j

instance (t : Tagged) (k : Nat) : Decidable (adoptsSince t k) := inferInstanceAs (Decidable (_ ∧ _))

/-- What a windup owes to the changes of counter before it: no push from before a change is
adopted, and none that is to be ignored; natFFC continues unless a push from after the change is
adopted; and nothing is left to process. -/
def UpdateKept (t : Tagged) (op : FfOp) (t' : Tagged) : Prop :=
  match op with
  | .windup _ delta none =>
    (adopts t.s → ∀ k ∈ t.lastChange, ∀ j ∈ t.pushed, k < j) ∧
    (adopts t.s → ∀ j ∈ t.pushed, j ∉ t.ignored) ∧
    (∀ k ∈ t.lastChange, ¬ adoptsSince t k → t'.s.tick.tickTime.val =
      t.s.tick.tickTime.val + product (delta.setWidth 64) t.s.tick.cdat.period) ∧
    t'.s.ffclockUpdated.toInt ≤ 0
  | .windup _ _ (some _) => t'.s.ffclockUpdated.toInt ≤ 0
  | _ => True

instance (t : Tagged) (t' : Tagged) : (op : FfOp) → Decidable (UpdateKept t op t')
  | .windup _ _ none => inferInstanceAs (Decidable (_ ∧ _ ∧ _ ∧ _))
  | .windup _ _ (some _) => inferInstanceAs (Decidable (_ ≤ _))
  | .changeTc _ _ _ | .setdata _ | .setSysclock _ => isTrue trivial

/-- At a change of counter one update at most is pending, and the counter of updates is not at its
minimum; no RTC reset while a push is to be ignored. -/
def UpdateCond (t : Tagged) (op : FfOp) : Prop :=
  match op with
  | .changeTc _ _ _ => -127 ≤ t.s.ffclockUpdated.toInt ∧ t.s.ffclockUpdated.toInt ≤ 1
  | .windup _ _ (some _) => t.awaiting = false
  | _ => True

instance (t : Tagged) : (op : FfOp) → Decidable (UpdateCond t op)
  | .changeTc _ _ _ => inferInstanceAs (Decidable (_ ∧ _))
  | .windup _ _ (some _) => inferInstanceAs (Decidable (_ = _))
  | .windup _ _ none | .setdata _ | .setSysclock _ => isTrue trivial

/-! ## The counter of updates -/

theorem adopts_pending {s : FfState} (h : adopts s) : pending s := by
  unfold adopts ignoreStale at h
  split at h
  · rename_i hstale
    exact hstale.1
  · exact h

/-- A windup without RTC reset leaves nothing to process, and what is not pending as it is. -/
theorem updated_windup {tcFrequency : BitVec 64} {delta : BitVec 32} {s s' : FfState}
    (h : ffclockWindup tcFrequency delta none s = some s') :
    s'.ffclockUpdated.toInt ≤ 0 ∧ (¬ pending s → s'.ffclockUpdated = s.ffclockUpdated) := by
  rcases windup_cases h with ⟨fb, utc, p, hreset, -, -⟩ | ⟨-, hadopts, rfl⟩ | ⟨p, -, hadopts,
    hp, rfl⟩
  · cases hreset
  · have hproject : (windupProject (delta.setWidth 64) (ignoreStale s)
        (bootSlot delta s)).1.ffclockUpdated = (ignoreStale s).ffclockUpdated := by
      unfold windupProject
      simp only
      split <;> rfl
    constructor
    · show (windupProject _ _ _).1.ffclockUpdated.toInt ≤ 0
      rw [hproject]
      exact not_lt.mp hadopts
    · intro hnot
      show (windupProject _ _ _).1.ffclockUpdated = _
      rw [hproject, ignoreStale, if_neg fun hstale => hnot hstale.1]
  · obtain ⟨period, -, rfl⟩ := Option.map_eq_some_iff.mp hp
    refine ⟨?_, fun hnot => absurd (adopts_pending hadopts) hnot⟩
    show (0 : BitVec 8).toInt ≤ 0
    decide

theorem updated_reset {tcFrequency : BitVec 64} {delta : BitVec 32} {r : Bintime × Bintime}
    {s s' : FfState} (h : ffclockWindup tcFrequency delta (some r) s = some s') :
    s'.ffclockUpdated = 0 := by
  rcases windup_cases h with ⟨fb, utc, p, -, hp, rfl⟩ | ⟨hreset, -, -⟩ | ⟨p, hreset, -, -, -⟩
  · obtain ⟨period, -, rfl⟩ := Option.map_eq_some_iff.mp hp
    rfl
  · cases hreset
  · cases hreset

theorem updated_changeTc {tc : TcName} {tcFrequency : BitVec 64} {ncount : BitVec 32}
    {s s' : FfState} (h : ffclockChangeTc tc tcFrequency ncount s = some s') :
    s'.ffclockUpdated = s.ffclockUpdated - 1 := by
  obtain ⟨period, -, rfl⟩ := Option.map_eq_some_iff.mp h
  rfl

/-- natFFC continues over a tick that adopts nothing. -/
theorem tickTime_project {tcFrequency : BitVec 64} {delta : BitVec 32} {s s' : FfState}
    (h : ffclockWindup tcFrequency delta none s = some s') (hadopts : ¬ adopts s) :
    s'.tick.tickTime.val =
      s.tick.tickTime.val + product (delta.setWidth 64) s.tick.cdat.period := by
  rcases windup_cases h with ⟨fb, utc, p, hreset, -, -⟩ | ⟨-, -, rfl⟩ | ⟨p, -, hyes, -, -⟩
  · cases hreset
  · rw [tick_publish]
    simp only [windupProject, tick_ignoreStale, Bintime.val_add, val_convertDelta]
  · exact absurd hyes hadopts

/-! ## Runs -/

/-- What a run that meets the condition keeps. -/
structure UpdateInv (t : Tagged) : Prop where
  pushed_lt : ∀ j ∈ t.pushed, j < t.now
  change_lt : ∀ k ∈ t.lastChange, k < t.now
  ignored_lt : ∀ j ∈ t.ignored, j < t.now
  /-- A push in `ffclock_data` is from after the last change. -/
  since : ∀ k ∈ t.lastChange, ∀ j ∈ t.pushed, k < j
  /-- The kernel's own data is not taken for an update. -/
  own : t.lastChange.isSome → t.pushed = none → t.s.ffclockUpdated.toInt ≤ 0
  awaiting : t.awaiting → t.s.ffclockUpdated.toInt < 0
  ignored : ∀ j ∈ t.pushed, j ∈ t.ignored → t.s.ffclockUpdated.toInt ≤ 0

theorem updateInv_init (s : FfState) : UpdateInv (tagged s) where
  pushed_lt := by simp [tagged]
  change_lt := by simp [tagged]
  ignored_lt := by simp [tagged]
  since := by simp [tagged]
  own := by simp [tagged]
  awaiting := by simp [tagged]
  ignored := by simp [tagged]

/-- One more update to process, from less than none. -/
theorem toInt_succ_le {x : BitVec 8} (h : x.toInt < 0) : (x + 1).toInt ≤ 0 := by
  have hlow := BitVec.le_toInt x
  rw [BitVec.toInt_add, show (1 : BitVec 8).toInt =
    1 from rfl, Int.bmod_eq_of_le (by omega) (by omega)]
  omega

/-- One update less, above the minimum. -/
theorem toInt_pred {x : BitVec 8} (h : -127 ≤ x.toInt) : (x - 1).toInt = x.toInt - 1 := by
  have hhigh : x.toInt < 2 ^ 7 := BitVec.toInt_lt
  rw [BitVec.toInt_sub, show (1 : BitVec 8).toInt =
    1 from rfl, Int.bmod_eq_of_le (by omega) (by omega)]

theorem updateInv_step {t t' : Tagged} {op : FfOp} (hI : UpdateInv t)
    (h : tagStep t op = some t') (hcond : UpdateCond t op) : UpdateInv t' := by
  obtain ⟨s', hs', rfl⟩ := Option.map_eq_some_iff.mp h
  cases op with
  | windup tcFrequency delta reset =>
    cases reset with
    | none =>
      have hwindup : ffclockWindup tcFrequency delta none t.s = some s' := hs'
      obtain ⟨hle, hkeep⟩ := updated_windup hwindup
      refine ⟨fun j hj => Nat.lt_succ_of_lt (hI.pushed_lt j hj),
        fun k hk => Nat.lt_succ_of_lt (hI.change_lt k hk),
        fun j hj => Nat.lt_succ_of_lt (hI.ignored_lt j hj), hI.since, fun _ _ => hle, ?_,
        fun _ _ _ => hle⟩
      intro hawaiting
      have hneg := hI.awaiting hawaiting
      show s'.ffclockUpdated.toInt < 0
      rw [hkeep (not_lt.mpr hneg.le)]
      exact hneg
    | some r =>
      have hzero : s'.ffclockUpdated = 0 := updated_reset hs'
      have hle : s'.ffclockUpdated.toInt ≤ 0 := by
        rw [hzero]
        decide
      refine ⟨(fun j hj => nomatch hj), fun k hk => Nat.lt_succ_of_lt (hI.change_lt k hk),
        fun j hj => Nat.lt_succ_of_lt (hI.ignored_lt j hj), (fun _ _ _ hj => nomatch hj),
        fun _ _ => hle, ?_, (fun _ hj => nomatch hj)⟩
      intro hawaiting
      exact absurd hawaiting (Bool.not_eq_true _ ▸ hcond)
  | changeTc tc tcFrequency ncount =>
    obtain ⟨hlow, hhigh⟩ := hcond
    have hupdated : s'.ffclockUpdated.toInt = t.s.ffclockUpdated.toInt - 1 := by
      rw [updated_changeTc hs', toInt_pred hlow]
    refine ⟨(fun j hj => nomatch hj), ?_, ?_, (fun _ _ _ hj => nomatch hj), ?_, ?_,
      (fun _ hj => nomatch hj)⟩
    · intro k hk
      obtain rfl := Option.some.inj hk
      exact Nat.lt_succ_self _
    · intro j hj
      simp only [Tagged.record] at hj ⊢
      split at hj
      · rcases List.mem_append.mp hj with hj | hj
        · exact Nat.lt_succ_of_lt (hI.pushed_lt j (Option.mem_toList.mp hj))
        · exact Nat.lt_succ_of_lt (hI.ignored_lt j hj)
      · exact Nat.lt_succ_of_lt (hI.ignored_lt j hj)
    · intro _ _
      show s'.ffclockUpdated.toInt ≤ 0
      omega
    · intro hawaiting
      show s'.ffclockUpdated.toInt < 0
      -- Either a push was awaited before, or nothing is pending at this change.
      have hle : t.s.ffclockUpdated.toInt ≤ 0 := by
        rcases Bool.or_eq_true_iff.mp hawaiting with hbefore | hnone
        · exact (hI.awaiting hbefore).le
        · have hnot : ¬ pending t.s := by simpa using hnone
          exact not_lt.mp hnot
      omega
  | setdata cdat =>
    obtain rfl := Option.some.inj hs'
    refine ⟨?_, fun k hk => Nat.lt_succ_of_lt (hI.change_lt k hk), ?_, ?_, (fun _ hn => nomatch hn),
      (fun hawaiting => nomatch hawaiting), ?_⟩
    · intro j hj
      obtain rfl := Option.some.inj hj
      exact Nat.lt_succ_self _
    · intro j hj
      simp only [Tagged.record] at hj ⊢
      split at hj
      · rcases List.mem_cons.mp hj with rfl | hj
        · exact Nat.lt_succ_self _
        · exact Nat.lt_succ_of_lt (hI.ignored_lt j hj)
      · exact Nat.lt_succ_of_lt (hI.ignored_lt j hj)
    · intro k hk j hj
      obtain rfl := Option.some.inj hj
      exact hI.change_lt k hk
    · intro j hj hignored
      obtain rfl := Option.some.inj hj
      by_cases hawaiting : t.awaiting = true
      · exact toInt_succ_le (hI.awaiting hawaiting)
      · -- The number of the push is new.
        simp only [Tagged.record, if_neg hawaiting] at hignored
        exact absurd (hI.ignored_lt _ hignored) (Nat.lt_irrefl _)
  | setSysclock sysclock =>
    obtain rfl := Option.some.inj hs'
    exact ⟨fun j hj => Nat.lt_succ_of_lt (hI.pushed_lt j hj),
      fun k hk => Nat.lt_succ_of_lt (hI.change_lt k hk),
      fun j hj => Nat.lt_succ_of_lt (hI.ignored_lt j hj), hI.since, hI.own, hI.awaiting, hI.ignored⟩

theorem updateKept_of_inv {t t' : Tagged} {op : FfOp} (hI : UpdateInv t)
    (h : tagStep t op = some t') : UpdateKept t op t' := by
  obtain ⟨s', hs', rfl⟩ := Option.map_eq_some_iff.mp h
  cases op with
  | windup tcFrequency delta reset =>
    cases reset with
    | none =>
      have hwindup : ffclockWindup tcFrequency delta none t.s = some s' := hs'
      refine ⟨fun _ => hI.since, ?_, ?_, (updated_windup hwindup).1⟩
      · intro hadopts j hj hignored
        exact absurd (adopts_pending hadopts) (not_lt.mpr (hI.ignored j hj hignored))
      · intro k hk hnot
        refine tickTime_project hwindup fun hadopts => hnot ⟨hadopts, ?_⟩
        -- What is pending after a change is a push from after it.
        cases hpushed : t.pushed with
        | none =>
          have hown := hI.own (Option.isSome_of_mem hk) hpushed
          exact absurd (adopts_pending hadopts) (not_lt.mpr hown)
        | some j => exact ⟨j, rfl, hI.since k hk j hpushed⟩
    | some r =>
      show s'.ffclockUpdated.toInt ≤ 0
      rw [updated_reset hs']
      decide
  | changeTc tc tcFrequency ncount => trivial
  | setdata cdat => trivial
  | setSysclock sysclock => trivial

/-- In every run that meets the condition, windups ignore what a change of counter is to make them
ignore, and natFFC continues over it. -/
theorem updates_around_change (s : FfState) (ops : List FfOp)
    (hcond : Along tagStep (fun t op _ => UpdateCond t op) (tagged s) ops) :
    Along tagStep UpdateKept (tagged s) ops := by
  refine along_inv ?_ ops (tagged s) (updateInv_init s) hcond
  exact fun t op t' hI h hc => ⟨updateInv_step hI h hc, updateKept_of_inv hI h⟩

/-- The daemon's data for a counter of 1 GHz. -/
def daemonData (sec : BitVec 64) (ffcount : BitVec 64) : FfclockData :=
  { updateTime := ⟨sec, 0⟩, updateFfcount := ffcount, leapsecExpected := 0, period := 18446744073
    errbAbs := 0, errbRate := 0, status := 0, secsToNextupdate := 16, leapsecTotal := 0
    leapsecNext := 0 }

/-- One update is pending at the change, and one comes after it. -/
theorem updates_around_change_onePending :
    Along tagStep UpdateKept (tagged (ffclockInit .fb))
      [.setdata (daemonData 100 0), .windup 1000000000 1000 none, .setdata (daemonData 101 500),
        .changeTc .other 1000000000 0, .windup 1000000000 1000 none,
        .setdata (daemonData 102 700), .windup 1000000000 1000 none] :=
  updates_around_change (ffclockInit .fb) _ (by decide +kernel)

/-- Two updates are pending at the change: the next windup takes the change's data for an update,
and natFFC loses the time since the last one. -/
theorem not_updates_twoPending :
    ¬ Along tagStep UpdateKept (tagged (ffclockInit .fb))
      [.setdata (daemonData 100 0), .windup 1000000000 1000 none, .setdata (daemonData 101 500),
        .setdata (daemonData 102 700), .changeTc .other 1000000000 0,
        .windup 1000000000 1000 none] := by
  decide +kernel

end RADclock.Kernel
