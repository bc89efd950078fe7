import RADclock.Kernel.Stores
import RADclock.Lib.Runs

/-!
# Copies of the daemon's data beside its update (`kern_ffclock.c`)

`sys_ffclock_setdata` copies the daemon's data into `ffclock_data` member by member, and
`ffclock_abstime` and `ffclock_difftime` copy from there without a lock, with the counter value of
the update as a generation number: loaded before, and compared after. Steps are single loads and
stores, in program order.

The counter value is not the last member that is stored. The members before it are stored while
the old value is still there, and those after it when the new one is there already, and a copy
made meanwhile passes the comparison.

- `DataSystem`, `dataStep`: the data with one writer and one reader.
- `Astride`: a call of `setdata` in progress has stored one of a member and the counter value.
- `DataInv`, `CopyInv`: what holds in every reachable state.
- `oneCall_of_distinct`: a copy that passes is of one call unless a member was loaded astride.
-/

namespace RADclock.Kernel

open Lib

/-- The scalars of `struct ffclock_data`. -/
inductive DataField where
  | updateSec | updateFrac | updateFfcount | leapsecExpected | period | errbAbs | errbRate | status
  | secsToNextupdate | leapsecTotal | leapsecNext
deriving DecidableEq, Repr

/-- In the order of the structure. -/
def DataField.all : List DataField :=
  [.updateSec, .updateFrac, .updateFfcount, .leapsecExpected, .period, .errbAbs, .errbRate, .status,
    .secsToNextupdate, .leapsecTotal, .leapsecNext]

theorem DataField.mem_all (f : DataField) : f ∈ DataField.all := by
  cases f <;> decide

/-- Load a member, to be stored elsewhere. -/
def DataField.load : DataField → FfclockData → DataStore
  | .updateSec, d => .updateTime (.sec d.updateTime.sec)
  | .updateFrac, d => .updateTime (.frac d.updateTime.frac)
  | .updateFfcount, d => .updateFfcount d.updateFfcount
  | .leapsecExpected, d => .leapsecExpected d.leapsecExpected
  | .period, d => .period d.period
  | .errbAbs, d => .errbAbs d.errbAbs
  | .errbRate, d => .errbRate d.errbRate
  | .status, d => .status d.status
  | .secsToNextupdate, d => .secsToNextupdate d.secsToNextupdate
  | .leapsecTotal, d => .leapsecTotal d.leapsecTotal
  | .leapsecNext, d => .leapsecNext d.leapsecNext

/-- A `memcpy` goes through all members. -/
theorem copyData_eq (d : FfclockData) : copyData d = DataField.all.map fun f => f.load d := rfl

/-- Copy a member. -/
def DataField.copy (f : DataField) (src dst : FfclockData) : FfclockData := (f.load src).apply dst

theorem load_copy_self (f : DataField) (src dst : FfclockData) :
    f.load (f.copy src dst) = f.load src := by
  cases f <;> rfl

theorem load_copy_of_ne {f g : DataField} (h : g ≠ f) (src dst : FfclockData) :
    g.load (f.copy src dst) = g.load dst := by
  cases f <;> cases g <;> first | rfl | exact absurd rfl h

theorem data_ext {a b : FfclockData} (h : ∀ f : DataField, f.load a = f.load b) : a = b := by
  obtain ⟨⟨as, af⟩, _, _, _, _, _, _, _, _, _⟩ := a
  obtain ⟨⟨bs, bf⟩, _, _, _, _, _, _, _, _, _⟩ := b
  have h1 := h .updateSec
  have h2 := h .updateFrac
  have h3 := h .updateFfcount
  have h4 := h .leapsecExpected
  have h5 := h .period
  have h6 := h .errbAbs
  have h7 := h .errbRate
  have h8 := h .status
  have h9 := h .secsToNextupdate
  have h10 := h .leapsecTotal
  have h11 := h .leapsecNext
  simp_all [DataField.load]

/-! ## One writer and one reader -/

inductive CopyPc where
  | start
  | copy (rest : List DataField)
  | test | left
deriving DecidableEq

/-- A reader of the data. Recorded are, for each member it has copied, the call it comes from, the
call that the first counter value comes from, and whether a member was loaded astride. -/
structure DataReader where
  pc : CopyPc
  updateFfcount : BitVec 64
  cdat : FfclockData
  sources : List (DataField × Nat)
  guard : Nat
  astride : Bool

/-- The data with a writer in its `calls`-th call, which has still to store the members of `rest`,
and a reader. The call that each member comes from is recorded. -/
structure DataSystem where
  ffclockData : FfclockData
  calls : Nat
  rest : List DataField
  source : DataField → Nat
  reader : DataReader

inductive DataWho where
  | writer | reader
deriving DecidableEq, Repr

/-- A call has stored one of the member and the counter value, and not the other. -/
def Astride (s : DataSystem) (f : DataField) : Prop :=
  ¬ (f ∈ s.rest ↔ DataField.updateFfcount ∈ s.rest)

instance (s : DataSystem) : DecidablePred (Astride s) := fun _ => inferInstanceAs (Decidable (¬ _))

/-- One step of `sys_ffclock_setdata`: the next call, or the next store of the one in progress. The
`k`-th call copies `data k`. -/
def setdataStep (data : Nat → FfclockData) (s : DataSystem) : DataSystem :=
  match s.rest with
  | [] => { s with calls := s.calls + 1, rest := DataField.all }
  | f :: rest =>
    { s with
      ffclockData := f.copy (data s.calls) s.ffclockData
      rest := rest
      source := Function.update s.source f s.calls }

/-- One step of a reader that copies the given members; after leaving it starts again. -/
def copyStep (fields : List DataField) (s : DataSystem) (r : DataReader) : DataReader :=
  match r.pc with
  | .start =>
    { r with
      pc := .copy fields, updateFfcount := s.ffclockData.updateFfcount, sources := []
      guard := s.source .updateFfcount, astride := false }
  | .copy (f :: rest) =>
    { r with
      pc := .copy rest, cdat := f.copy s.ffclockData r.cdat
      sources := (f, s.source f) :: r.sources, astride := r.astride || decide (Astride s f) }
  | .copy [] => { r with pc := .test }
  | .test => { r with pc := if r.updateFfcount =
    s.ffclockData.updateFfcount then .left else .start }
  | .left => { r with pc := .start }

/-- The members that `ffclock_abstime` copies. -/
def abstimeFields : List DataField := DataField.all

/-- The members that `ffclock_difftime` copies. -/
def difftimeFields : List DataField := [.errbRate]

def dataStep (data : Nat → FfclockData) (fields : List DataField) (s : DataSystem) :
    DataWho → DataSystem
  | .writer => setdataStep data s
  | .reader => { s with reader := copyStep fields s s.reader }

/-- Before the first call the data is `data 0`. -/
def dataInit (data : Nat → FfclockData) : DataSystem where
  ffclockData := data 0
  calls := 0
  rest := []
  source := fun _ => 0
  reader := ⟨.start, 0, data 0, [], 0, false⟩

/-! ## The writer -/

/-- Each member is of the call in progress or of the one before it. -/
structure DataInv (data : Nat → FfclockData) (s : DataSystem) : Prop where
  suffix : ∃ done, done ++ s.rest = DataField.all
  pos : s.rest ≠ [] → 0 < s.calls
  source : ∀ f, s.source f = if f ∈ s.rest then s.calls - 1 else s.calls
  value : ∀ f : DataField, f.load s.ffclockData = f.load (data (s.source f))

theorem dataInv_init (data : Nat → FfclockData) : DataInv data (dataInit data) where
  suffix := ⟨DataField.all, List.append_nil _⟩
  pos h := absurd rfl h
  source f := by simp [dataInit]
  value _ := rfl

theorem dataInv_setdata {data : Nat → FfclockData} {s : DataSystem} (h : DataInv data s) :
    DataInv data (setdataStep data s) := by
  -- the fields already stored belong to this call, the rest to the one before
  obtain ⟨done, hdone⟩ := h.suffix
  unfold setdataStep
  cases hrest : s.rest with
  | nil =>
    refine ⟨⟨[], rfl⟩, fun _ => Nat.succ_pos _, fun f => ?_, h.value⟩
    have hsource := h.source f
    rw [hrest] at hsource
    show s.source f = if f ∈ DataField.all then s.calls + 1 - 1 else s.calls + 1
    rw [if_pos f.mem_all, hsource]
    simp
  -- one more field is stored, which no other store touches
  | cons f rest =>
    rw [hrest] at hdone
    have hnodup : (done ++ f :: rest).Nodup := hdone ▸ (by decide)
    have hf : f ∉ rest := (List.nodup_cons.mp (List.nodup_append.mp hnodup).2.1).1
    refine ⟨⟨done ++ [f], by simpa using hdone⟩, fun _ => h.pos (by simp [hrest]), fun g => ?_,
      fun g => ?_⟩
    · show Function.update s.source f s.calls g = if g ∈ rest then s.calls - 1 else s.calls
      by_cases hg : g = f
      · rw [hg, Function.update_self, if_neg hf]
      · have hsource := h.source g
        rw [Function.update_of_ne hg, hsource, hrest]
        simp [hg]
    · show g.load (f.copy (data s.calls) s.ffclockData) =
        g.load (data (Function.update s.source f s.calls g))
      by_cases hg : g = f
      · rw [hg, Function.update_self, load_copy_self]
      · rw [Function.update_of_ne hg, load_copy_of_ne hg]
        exact h.value g

theorem source_le {data : Nat → FfclockData} {s : DataSystem} (h : DataInv data s) (f : DataField) :
    s.source f ≤ s.calls := by
  rw [h.source f]
  split <;> omega

/-- A member and the counter value are of one call unless one is stored and the other is not. -/
theorem astride_iff {data : Nat → FfclockData} {s : DataSystem} (h : DataInv data s)
    (f : DataField) : Astride s f ↔ s.source f ≠ s.source .updateFfcount := by
  have hpos : f ∈ s.rest ∨ DataField.updateFfcount ∈ s.rest → 0 < s.calls := by
    rintro (hm | hm) <;> exact h.pos (List.ne_nil_of_mem hm)
  unfold Astride
  rw [h.source f, h.source .updateFfcount]
  by_cases hf : f ∈ s.rest <;> by_cases hu : DataField.updateFfcount ∈ s.rest <;>
    simp only [hf, hu, if_true, if_false] <;> simp
  · have := hpos (.inl hf)
    omega
  · have := hpos (.inr hu)
    omega

theorem updateFfcount_eq {data : Nat → FfclockData} {s : DataSystem} (h : DataInv data s) :
    s.ffclockData.updateFfcount = (data (s.source .updateFfcount)).updateFfcount := by
  have hload := h.value .updateFfcount
  simpa [DataField.load] using hload

theorem source_mono {data : Nat → FfclockData} {s : DataSystem} (h : DataInv data s)
    (f : DataField) : s.source f ≤ (setdataStep data s).source f := by
  have hle := source_le h f
  unfold setdataStep
  cases hrest : s.rest with
  | nil => exact Nat.le_refl _
  | cons g rest =>
    show s.source f ≤ Function.update s.source g s.calls f
    by_cases hf : f = g
    · rw [hf, Function.update_self]
      exact hf ▸ hle
    · rw [Function.update_of_ne hf]

/-! ## The reader -/

/-- The first calls have different counter values. -/
def Distinct (data : Nat → FfclockData) (calls : Nat) : Prop :=
  ∀ i, i ≤ calls → ∀ j, j ≤ calls → (data i).updateFfcount = (data j).updateFfcount → i = j

instance (data : Nat → FfclockData) (calls : Nat) : Decidable (Distinct data calls) :=
  inferInstanceAs (Decidable (∀ i, i ≤ calls → ∀ j, j ≤ calls → _ → i = j))

/-- After the first load of the counter value. -/
def CopyPc.entered : CopyPc → Bool
  | .start => false
  | _ => true

/-- Before the comparison. -/
def CopyPc.looping : CopyPc → Bool
  | .copy _ | .test => true
  | _ => false

/-- The members that are still to be copied. -/
def CopyPc.rest : CopyPc → List DataField
  | .copy rest => rest
  | _ => []

/-- The record is complete: no member was loaded astride if and only if all are of the call that
the first counter value is of; and the counter value itself, where it is copied, is of that call. -/
def Sorted (r : DataReader) : Prop :=
  (r.astride = false ↔ ∀ p ∈ r.sources, p.2 = r.guard) ∧
    ∀ p ∈ r.sources, p.1 = DataField.updateFfcount → p.2 = r.guard

/-- What a reader has, as long as the calls have different counter values. -/
structure CopyInv (data : Nat → FfclockData) (fields : List DataField) (s : DataSystem)
    (r : DataReader) : Prop where
  copied : r.pc.entered = true → (r.sources.map Prod.fst).reverse ++ r.pc.rest = fields
  value : r.pc.entered = true → ∀ p ∈ r.sources,
    p.2 ≤ s.calls ∧ p.1.load r.cdat = p.1.load (data p.2)
  guard_le : r.pc.entered = true → r.guard ≤ s.source .updateFfcount
  updateFfcount : r.pc.entered = true → r.updateFfcount = (data r.guard).updateFfcount
  looping : r.pc.looping = true → s.source .updateFfcount = r.guard → Sorted r
  out : r.pc = .left → Sorted r

theorem copyInv_init (data : Nat → FfclockData) (fields : List DataField) :
    CopyInv data fields (dataInit data) (dataInit data).reader := by
  constructor <;> simp [dataInit, CopyPc.entered, CopyPc.looping]

theorem entered_of_looping {pc : CopyPc} (h : pc.looping = true) : pc.entered = true := by
  revert h
  cases pc <;> simp [CopyPc.looping, CopyPc.entered]

theorem copyInv_setdata {data : Nat → FfclockData} {fields : List DataField} {s : DataSystem}
    {r : DataReader} (hd : DataInv data s) (h : CopyInv data fields s r) :
    CopyInv data fields (setdataStep data s) r := by
  have hmono := source_mono hd .updateFfcount
  have hcalls : s.calls ≤ (setdataStep data s).calls := by
    unfold setdataStep
    split
    · exact Nat.le_succ _
    · exact Nat.le_refl _
  constructor
  · exact h.copied
  · intro he p hp
    obtain ⟨hle, hval⟩ := h.value he p hp
    exact ⟨Nat.le_trans hle hcalls, hval⟩
  · exact fun he => Nat.le_trans (h.guard_le he) hmono
  · exact h.updateFfcount
  · intro hl hsame
    have hle := h.guard_le (entered_of_looping hl)
    -- the counter value has not been stored in between
    exact h.looping hl (by omega)
  · exact h.out

theorem copyInv_copy {data : Nat → FfclockData} {fields : List DataField} (hfields : fields.Nodup)
    {s : DataSystem} {r : DataReader} (hd : DataInv data s) (h : CopyInv data fields s r)
    (hdist : Distinct data s.calls) : CopyInv data fields s (copyStep fields s r) := by
  -- by where the reader is
  cases hpc : r.pc with
  | start =>
    simp only [copyStep, hpc]
    refine ⟨fun _ => rfl, by simp, fun _ => Nat.le_refl _, fun _ => updateFfcount_eq hd,
      fun _ _ => ⟨by simp, by simp⟩, by simp⟩
  | copy rest =>
    have hcopied := h.copied (by rw [hpc]; rfl)
    have hvalue := h.value (by rw [hpc]; rfl)
    have hguard := h.guard_le (by rw [hpc]; rfl)
    have hcount := h.updateFfcount (by rw [hpc]; rfl)
    have hloop := h.looping (by rw [hpc]; rfl)
    rw [hpc] at hcopied
    cases rest with
    | nil =>
      simp only [copyStep, hpc]
      exact ⟨fun _ => hcopied, fun _ => hvalue, fun _ => hguard, fun _ => hcount, fun _ => hloop,
        by simp⟩
    -- one more field is copied
    | cons f rest =>
      have hnew : f ∉ r.sources.map Prod.fst := by
        intro hf
        have hnodup : ((r.sources.map Prod.fst).reverse ++ f :: rest).Nodup := hcopied ▸ hfields
        exact (List.nodup_append.mp hnodup).2.2 f (List.mem_reverse.mpr hf) f
          List.mem_cons_self rfl
      simp only [copyStep, hpc]
      refine ⟨fun _ => ?_, fun _ => ?_, fun _ => hguard, fun _ => hcount, fun _ hsame => ?_,
        by simp⟩
      · simpa [CopyPc.rest] using hcopied
      · intro p hp
        rcases List.mem_cons.mp hp with rfl | hp
        · exact ⟨source_le hd f, (load_copy_self f _ _).trans (hd.value f)⟩
        · obtain ⟨hle, hval⟩ := hvalue p hp
          have hne : p.1 ≠ f := fun heq => hnew (heq ▸ List.mem_map_of_mem hp)
          exact ⟨hle, (load_copy_of_ne hne _ _).trans hval⟩
      · -- astride stays false exactly while every copy comes from the guarded call
        obtain ⟨hiff, hown⟩ := hloop hsame
        have hast := astride_iff hd f
        change s.source .updateFfcount = r.guard at hsame
        constructor
        · show (r.astride || decide (Astride s f)) = false ↔ _
          simp only [Bool.or_eq_false_iff, decide_eq_false_iff_not, hast, not_not, hiff, hsame,
            List.forall_mem_cons]
          exact and_comm
        · intro p hp hfc
          rcases List.mem_cons.mp hp with rfl | hp
          · change f = DataField.updateFfcount at hfc
            rw [hfc]
            exact hsame
          · exact hown p hp hfc
  | test =>
    have hcopied := h.copied (by rw [hpc]; rfl)
    have hvalue := h.value (by rw [hpc]; rfl)
    have hguard := h.guard_le (by rw [hpc]; rfl)
    have hcount := h.updateFfcount (by rw [hpc]; rfl)
    have hloop := h.looping (by rw [hpc]; rfl)
    rw [hpc] at hcopied
    -- equal counts are of one and the same call, the calls being distinct
    by_cases hpass : r.updateFfcount = s.ffclockData.updateFfcount
    · simp only [copyStep, hpc, if_pos hpass]
      rw [hcount, updateFfcount_eq hd] at hpass
      have hle := source_le hd .updateFfcount
      have hsame := hdist _ (by omega) _ hle hpass
      exact ⟨fun _ => hcopied, fun _ => hvalue, fun _ => hguard, fun _ => hcount,
        by simp [CopyPc.looping], fun _ => hloop hsame.symm⟩
    · simp only [copyStep, hpc, if_neg hpass]
      constructor <;> simp [CopyPc.entered, CopyPc.looping]
  | left =>
    simp only [copyStep, hpc]
    constructor <;> simp [CopyPc.entered, CopyPc.looping]

/-! ## Every interleaving -/

/-- What every reachable state satisfies, as long as the calls have different counter values. -/
structure DataSystemInv (data : Nat → FfclockData) (fields : List DataField) (s : DataSystem) :
    Prop where
  writer : DataInv data s
  reader : Distinct data s.calls → CopyInv data fields s s.reader

theorem dataSystemInv_step {data : Nat → FfclockData} {fields : List DataField}
    (hfields : fields.Nodup) (s : DataSystem) (who : DataWho)
    (h : DataSystemInv data fields s) : DataSystemInv data fields (dataStep data fields s who) := by
  cases who with
  | writer =>
    refine ⟨dataInv_setdata h.writer, fun hdist => ?_⟩
    have hcalls : s.calls ≤ (setdataStep data s).calls ∧ (setdataStep data s).reader =
      s.reader := by
      unfold setdataStep
      split
      · exact ⟨Nat.le_succ _, rfl⟩
      · exact ⟨Nat.le_refl _, rfl⟩
    show CopyInv data fields (setdataStep data s) (setdataStep data s).reader
    rw [hcalls.2]
    refine copyInv_setdata h.writer (h.reader fun i hi j hj => ?_)
    exact hdist i (Nat.le_trans hi hcalls.1) j (Nat.le_trans hj hcalls.1)
  | reader =>
    refine ⟨⟨h.writer.suffix, h.writer.pos, h.writer.source, h.writer.value⟩, fun hdist => ?_⟩
    have hcopy := copyInv_copy hfields h.writer (h.reader hdist) hdist
    exact ⟨hcopy.copied, hcopy.value, hcopy.guard_le, hcopy.updateFfcount, hcopy.looping, hcopy.out⟩

theorem dataSystemInv_run (data : Nat → FfclockData) {fields : List DataField}
    (hfields : fields.Nodup) (sched : List DataWho) :
    DataSystemInv data fields (runSteps (dataStep data fields) (dataInit data) sched) := by
  refine runSteps_inv (C := fun _ _ => True) (fun s who h _ => dataSystemInv_step hfields s who h)
    sched _ ⟨dataInv_init data, fun _ => copyInv_init data fields⟩ (stepsMeet_true sched _)

/-- All members of the copy are of one call. -/
def OneCall (r : DataReader) : Prop := ∃ k, ∀ p ∈ r.sources, p.2 = k

/-- No member is loaded astride. -/
def Aligned (s : DataSystem) : DataWho → Prop
  | .writer => True
  | .reader => ∀ f ∈ s.reader.pc.rest.head?, ¬ Astride s f

instance (s : DataSystem) : DecidablePred (Aligned s)
  | .writer => inferInstanceAs (Decidable True)
  | .reader => inferInstanceAs (Decidable (∀ f ∈ s.reader.pc.rest.head?, ¬ Astride s f))

theorem not_astride_step {data : Nat → FfclockData} {fields : List DataField} (s : DataSystem)
    (who : DataWho) (h : s.reader.astride = false) (ha : Aligned s who) :
    (dataStep data fields s who).reader.astride = false := by
  cases who with
  | writer =>
    show (setdataStep data s).reader.astride = false
    unfold setdataStep
    split <;> exact h
  | reader =>
    show (copyStep fields s s.reader).astride = false
    unfold copyStep
    split
    · rfl
    · rename_i f rest hpc
      have hf := ha f (by rw [hpc]; rfl)
      simp [h, hf]
    all_goals exact h

/-- A copy that is not of one call, or that is, by whether a member was loaded astride. -/
theorem oneCall_iff {data : Nat → FfclockData} {s : DataSystem} {fields : List DataField}
    (hcopied : DataField.updateFfcount ∈ fields) (h : CopyInv data fields s s.reader)
    (hleft : s.reader.pc = .left) : OneCall s.reader ↔ s.reader.astride = false := by
  obtain ⟨hiff, hown⟩ := h.out hleft
  have hall := h.copied (by rw [hleft]; rfl)
  rw [hleft] at hall
  simp only [CopyPc.rest, List.append_nil] at hall
  rw [hiff]
  constructor
  · rintro ⟨k, hk⟩ p hp
    -- the counter value is among what was copied, and is of the call guarded
    obtain ⟨q, hq, hqf⟩ := List.mem_map.mp (List.mem_reverse.mp (hall ▸ hcopied))
    rw [hk p hp, ← hk q hq]
    exact hown q hq hqf
  · exact fun hg => ⟨_, hg⟩

/-- A reader that leaves with members of one call has the data of that call. -/
theorem cdat_of_oneCall {data : Nat → FfclockData} {s : DataSystem}
    (h : CopyInv data abstimeFields s s.reader) (hleft : s.reader.pc = .left)
    (hone : OneCall s.reader) : ∃ k, k ≤ s.calls ∧ s.reader.cdat = data k := by
  obtain ⟨k, hk⟩ := hone
  have hall := h.copied (by rw [hleft]; rfl)
  have hvalue := h.value (by rw [hleft]; rfl)
  rw [hleft] at hall
  simp only [CopyPc.rest, List.append_nil] at hall
  have hmem : ∀ f : DataField, ∃ p ∈ s.reader.sources, p.1 = f := fun f =>
    List.mem_map.mp (List.mem_reverse.mp (hall ▸ f.mem_all))
  refine ⟨k, ?_, data_ext fun f => ?_⟩
  · obtain ⟨p, hp, -⟩ := hmem .period
    exact hk p hp ▸ (hvalue p hp).1
  · obtain ⟨p, hp, rfl⟩ := hmem f
    exact hk p hp ▸ (hvalue p hp).2

/-- In every interleaving, with different counter values in the calls, the data that
`ffclock_abstime` accepts is of one call if and only if no member was loaded astride, and so it is
where no step loads one astride; and the error rate that `ffclock_difftime` accepts is of one
call. -/
theorem oneCall_of_distinct (data : Nat → FfclockData) (sched : List DataWho) :
    (let s := runSteps (dataStep data abstimeFields) (dataInit data) sched
     Distinct data s.calls → s.reader.pc = .left →
      (OneCall s.reader ↔ s.reader.astride = false) ∧
      (StepsMeet Aligned (dataStep data abstimeFields) (dataInit data) sched →
        OneCall s.reader ∧ ∃ k, k ≤ s.calls ∧ s.reader.cdat = data k)) ∧
    (let s := runSteps (dataStep data difftimeFields) (dataInit data) sched
     Distinct data s.calls → s.reader.pc = .left →
      OneCall s.reader ∧ ∃ k, k ≤ s.calls ∧ s.reader.cdat.errbRate = (data k).errbRate) := by
  constructor
  · intro s hdist hleft
    have hinv := (dataSystemInv_run data (show abstimeFields.Nodup by decide) sched).reader hdist
    have hiff := oneCall_iff (by decide) hinv hleft
    refine ⟨hiff, fun hmeet => ?_⟩
    have hnot := runSteps_inv (I := fun s => s.reader.astride = false) not_astride_step sched _ rfl
      hmeet
    have hone := hiff.mpr hnot
    exact ⟨hone, cdat_of_oneCall hinv hleft hone⟩
  · intro s hdist hleft
    have hinv := (dataSystemInv_run data (show difftimeFields.Nodup by decide) sched).reader hdist
    have hall := hinv.copied (by rw [hleft]; rfl)
    have hvalue := hinv.value (by rw [hleft]; rfl)
    rw [hleft] at hall
    simp only [CopyPc.rest, List.append_nil, List.reverse_eq_iff] at hall
    -- only one member is copied
    obtain ⟨p, hp, hpf⟩ := List.map_eq_singleton_iff.mp hall
    have hmem : p ∈ s.reader.sources := by
      rw [hp]
      exact List.mem_singleton_self p
    obtain ⟨hle, hval⟩ := hvalue p hmem
    refine ⟨⟨p.2, fun q hq => ?_⟩, p.2, hle, ?_⟩
    · rw [hp] at hq
      rw [List.mem_singleton.mp hq]
    · rw [hpf] at hval
      simpa [DataField.load] using hval

/-- The `k`-th call has `k` in all members. -/
def numbered (k : Nat) : FfclockData :=
  { updateTime := ⟨k, k⟩, updateFfcount := k, leapsecExpected := k, period := k, errbAbs := k
    errbRate := k, status := k, secsToNextupdate := k, leapsecTotal := k, leapsecNext := k }

/-- A call, then a copy, with another call once it has been accepted. -/
def apartCopy : List DataWho :=
  List.replicate 12 .writer ++ List.replicate 14 .reader ++ List.replicate 12 .writer

theorem oneCall_of_distinct_apartCopy :
    let s := runSteps (dataStep numbered abstimeFields) (dataInit numbered) apartCopy
    s.reader.pc = .left ∧ OneCall s.reader ∧ ∃ k, k ≤ s.calls ∧ s.reader.cdat = numbered k := by
  refine ⟨by decide, ?_⟩
  exact ((oneCall_of_distinct numbered apartCopy).1 (by decide) (by decide)).2
    (by decide)

/-- A call, and a copy that is made when the next call has stored the counter value and not yet
what follows it. -/
def tornCopy : List DataWho :=
  List.replicate 12 .writer ++ List.replicate 4 .writer ++ List.replicate 14 .reader

/-- The data accepted has the counter value of one call and the error rate of another. -/
theorem not_oneCall_tornCopy :
    let s := runSteps (dataStep numbered abstimeFields) (dataInit numbered) tornCopy
    Distinct numbered s.calls ∧ s.reader.pc = .left ∧ ¬ OneCall s.reader ∧
      ∀ k, k ≤ s.calls → s.reader.cdat ≠ numbered k := by
  refine ⟨by decide, by decide, ?_, by decide⟩
  rintro ⟨k, hk⟩
  have hcount := hk (.updateFfcount, 2) (by decide)
  have hrate := hk (.errbRate, 1) (by decide)
  simp only at hcount hrate
  omega

end RADclock.Kernel
