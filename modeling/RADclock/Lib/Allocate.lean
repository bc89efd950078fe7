import Mathlib.Data.Finset.Card
import Mathlib.Data.List.Nodup
import RADclock.Lib.Runs

/-!
# Numbers in order of first appearance

A table of bounded size gives each value it sees the next number, while there is one left.

- `allocate`: one value, looked up or added. `allocateRun` keeps the values beside their numbers.
- `Allocated`: what any sequence of values leaves behind; every output so far is the number that the
  value has in the table.
- `allocated_run`: every sequence does.
- `run_number_eq_iff`, `run_number_eq_card`, `run_none_iff`: when two numbers are equal, what number
  a value gets, and when it gets none.
-/

namespace Lib

variable {α : Type} [DecidableEq α]

/-- The number of a value. -/
def number (table : List α) (a : α) : Option ℕ :=
  if a ∈ table then some (table.idxOf a) else none

/-- The number of a value, which is added to the table if it is new and there is room. -/
def allocate (size : ℕ) (table : List α) (a : α) : List α × Option ℕ :=
  if a ∈ table then (table, some (table.idxOf a))
  else if table.length < size then (table ++ [a], some table.length)
  else (table, none)

/-- The values `as`, with their numbers, and the table at the end. -/
def allocateRun (size : ℕ) (as : List α) : List α × List (α × Option ℕ) :=
  runOut (fun table a => ((allocate size table a).1, (a, (allocate size table a).2))) [] as

/-! ## One step -/

/-- The calls have left the table. -/
structure Allocated (size : ℕ) (table : List α) (calls : List (α × Option ℕ)) : Prop where
  nodup : table.Nodup
  length_le : table.length ≤ size
  seen : ∀ a ∈ table, ∃ x ∈ calls, x.1 = a
  room : table.length < size → ∀ x ∈ calls, x.1 ∈ table
  out : ∀ x ∈ calls, x.2 = number table x.1

variable {size : ℕ} {as table : List α} {calls before after : List (α × Option ℕ)} {a b : α}

theorem number_of_mem (h : a ∈ table) : number table a = some (table.idxOf a) := if_pos h

theorem number_of_notMem (h : a ∉ table) : number table a = none := if_neg h

theorem number_ne_none : number table a ≠ none ↔ a ∈ table := by
  by_cases h : a ∈ table
  · rw [number_of_mem h]
    exact iff_of_true (Option.some_ne_none _) h
  · rw [number_of_notMem h]
    exact iff_of_false (fun hne => hne rfl) h

theorem number_eq_iff (h : a ∈ table) : number table a = number table b ↔ a = b := by
  refine ⟨fun heq => ?_, fun heq => heq ▸ rfl⟩
  have hb : b ∈ table := by
    rw [← number_ne_none, ← heq, number_ne_none]
    exact h
  rw [number_of_mem h, number_of_mem hb, Option.some.injEq] at heq
  exact (List.idxOf_inj h).mp heq

theorem allocate_eq_none (hlen : table.length ≤ size) :
    (allocate size table a).2 = none ↔ a ∉ table ∧ table.length = size := by
  unfold allocate
  split
  · next hmem => simp [hmem]
  · next hmem =>
    split
    · next hroom => exact iff_of_false (Option.some_ne_none _) fun h => hroom.ne h.2
    · next hroom => exact iff_of_true rfl ⟨hmem, Nat.le_antisymm hlen (Nat.not_lt.mp hroom)⟩

theorem allocate_length_le (hlen : table.length ≤ size) (a : α) :
    (allocate size table a).1.length ≤ size := by
  unfold allocate
  split
  · exact hlen
  · split
    · next hroom =>
      rw [List.length_append]
      exact hroom
    · exact hlen

theorem mem_allocate (h : b ∈ (allocate size table a).1) : b ∈ table ∨ b = a := by
  unfold allocate at h
  split at h
  · exact Or.inl h
  · split at h
    · exact (List.mem_append.mp h).imp_right List.mem_singleton.mp
    · exact Or.inl h

theorem allocated_nil (size : ℕ) : Allocated size ([] : List α) [] where
  nodup := List.nodup_nil
  length_le := Nat.zero_le size
  seen _ h := absurd h List.not_mem_nil
  room _ _ h := absurd h List.not_mem_nil
  out _ h := absurd h List.not_mem_nil

/-- One more value. -/
theorem Allocated.snoc (h : Allocated size table calls) (a : α) :
    Allocated size (allocate size table a).1 (calls ++ [(a, (allocate size table a).2)]) := by
  unfold allocate
  by_cases hmem : a ∈ table
  · -- known already
    rw [if_pos hmem]
    refine { nodup := h.nodup, length_le := h.length_le, seen := fun b hb => ?_,
             room := fun hroom x hx => ?_, out := fun x hx => ?_ }
    · obtain ⟨x, hx, rfl⟩ := h.seen b hb
      exact ⟨x, List.mem_append_left _ hx, rfl⟩
    · rcases List.mem_append.mp hx with hx | hx
      · exact h.room hroom x hx
      · exact List.mem_singleton.mp hx ▸ hmem
    · rcases List.mem_append.mp hx with hx | hx
      · exact h.out x hx
      · exact List.mem_singleton.mp hx ▸ (number_of_mem hmem).symm
  rw [if_neg hmem]
  by_cases hroom : table.length < size
  · -- new, and there is room: all earlier values are in the table, whose numbers do not change
    rw [if_pos hroom]
    have hlast : a ∈ table ++ [a] := List.mem_append_right _ (List.mem_singleton.mpr rfl)
    have hearlier : ∀ x ∈ calls, x.1 ∈ table := h.room hroom
    refine { nodup := ?_, length_le := ?_, seen := fun b hb => ?_, room := fun _ x hx => ?_,
             out := fun x hx => ?_ }
    · exact h.nodup.append (List.nodup_singleton a) (List.disjoint_singleton.mpr hmem)
    · rw [List.length_append, List.length_singleton]
      exact hroom
    · rcases List.mem_append.mp hb with hb | hb
      · obtain ⟨x, hx, rfl⟩ := h.seen b hb
        exact ⟨x, List.mem_append_left _ hx, rfl⟩
      · exact ⟨_, List.mem_append_right _ (List.mem_singleton.mpr rfl),
          (List.mem_singleton.mp hb).symm⟩
    · rcases List.mem_append.mp hx with hx | hx
      · exact List.mem_append_left _ (hearlier x hx)
      · exact List.mem_singleton.mp hx ▸ hlast
    · rcases List.mem_append.mp hx with hx | hx
      · rw [h.out x hx, number_of_mem (hearlier x hx),
          number_of_mem (List.mem_append_left _ (hearlier x hx)),
          List.idxOf_append_of_mem (hearlier x hx)]
      · obtain rfl := List.mem_singleton.mp hx
        rw [number_of_mem hlast, List.idxOf_append_of_notMem hmem, List.idxOf_cons_self,
          Nat.add_zero]
  · -- new, and the table is full
    rw [if_neg hroom]
    refine { nodup := h.nodup, length_le := h.length_le, seen := fun b hb => ?_,
             room := fun hroom' => absurd hroom' hroom, out := fun x hx => ?_ }
    · obtain ⟨x, hx, rfl⟩ := h.seen b hb
      exact ⟨x, List.mem_append_left _ hx, rfl⟩
    · rcases List.mem_append.mp hx with hx | hx
      · exact h.out x hx
      · exact List.mem_singleton.mp hx ▸ (number_of_notMem hmem).symm

/-! ## Runs -/

theorem allocated_run (size : ℕ) (as : List α) :
    Allocated size (allocateRun size as).1 (allocateRun size as).2 := by
  induction as using List.reverseRecOn with
  | nil => exact allocated_nil size
  | append_singleton as a ih =>
    unfold allocateRun at ih ⊢
    rw [runOut_append]
    exact ih.snoc a

theorem map_fst_allocateRun (size : ℕ) (as : List α) :
    (allocateRun size as).2.map Prod.fst = as := by
  induction as using List.reverseRecOn with
  | nil => rfl
  | append_singleton as a ih =>
    unfold allocateRun at ih ⊢
    rw [runOut_append, List.map_append, ih]
    rfl

/-- A number is given in the table that the earlier calls have left. -/
theorem Allocated.split {x : α × Option ℕ} (h : (allocateRun size as).2 = before ++ x :: after) :
    ∃ table, Allocated size table before ∧ x.2 = (allocate size table x.1).2 := by
  obtain ⟨as₁, a, -, -, rfl, rfl⟩ := runOut_split as [] h
  exact ⟨_, allocated_run size as₁, rfl⟩

/-- The values to which the calls have given a number. -/
def withNumber (calls : List (α × Option ℕ)) : Finset α :=
  ((calls.filter fun x => x.2.isSome).map Prod.fst).toFinset

theorem Allocated.withNumber_eq (h : Allocated size table calls) : withNumber calls =
    table.toFinset := by
  ext a
  simp only [withNumber, List.mem_toFinset, List.mem_map, List.mem_filter,
    Option.isSome_iff_ne_none]
  constructor
  · rintro ⟨x, ⟨hx, hsome⟩, rfl⟩
    rw [h.out x hx, number_ne_none] at hsome
    exact hsome
  · intro ha
    obtain ⟨x, hx, rfl⟩ := h.seen a ha
    refine ⟨x, ⟨hx, ?_⟩, rfl⟩
    rw [h.out x hx, number_ne_none]
    exact ha

/-- Equal values have equal numbers, and no others do. -/
theorem run_number_eq_iff {x y : α × Option ℕ} (hx : x ∈ (allocateRun size as).2)
    (hy : y ∈ (allocateRun size as).2) (hsome : x.2 ≠ none) : x.2 = y.2 ↔ x.1 = y.1 := by
  have h := allocated_run size as
  rw [h.out x hx, number_ne_none] at hsome
  rw [h.out x hx, h.out y hy, number_eq_iff hsome]

/-- A number is that of the different values before the first appearance. -/
theorem run_number_eq_card {x : α × Option ℕ} (hx : x ∈ (allocateRun size as).2)
    (hsome : x.2 ≠ none) : x.2 = some (as.take (as.idxOf x.1)).toFinset.card := by
  have hmem : x.1 ∈ as := by
    rw [← map_fst_allocateRun size as]
    exact List.mem_map_of_mem hx
  obtain ⟨as₁, as₂, has, hfirst⟩ := List.eq_append_cons_of_mem hmem
  have htake : as.take (as.idxOf x.1) = as₁ := by
    rw [has, List.idxOf_append_of_notMem hfirst, List.idxOf_cons_self, Nat.add_zero,
      List.take_left]
  -- the call at which the value first appears
  have h := allocated_run size as₁
  have hcall : (x.1, (allocate size (allocateRun size as₁).1 x.1).2) ∈ (allocateRun size as).2 := by
    rw [has]
    unfold allocateRun
    rw [runOut_append]
    exact List.mem_append_right _ List.mem_cons_self
  have hout := (run_number_eq_iff hx hcall hsome).mpr rfl
  have hnew : x.1 ∉ (allocateRun size as₁).1 := by
    intro hin
    obtain ⟨y, hy, heq⟩ := h.seen _ hin
    have hy' := List.mem_map_of_mem (f := Prod.fst) hy
    rw [map_fst_allocateRun, heq] at hy'
    exact hfirst hy'
  have hroom : (allocateRun size as₁).1.length < size := by
    refine Nat.lt_of_le_of_ne h.length_le fun hfull => hsome ?_
    rw [hout]
    exact (allocate_eq_none h.length_le).mpr ⟨hnew, hfull⟩
  have hset : as₁.toFinset = (allocateRun size as₁).1.toFinset := by
    ext a
    rw [List.mem_toFinset, List.mem_toFinset]
    constructor
    · intro ha
      rw [← map_fst_allocateRun size as₁] at ha
      obtain ⟨y, hy, rfl⟩ := List.mem_map.mp ha
      exact h.room hroom y hy
    · intro ha
      obtain ⟨y, hy, rfl⟩ := h.seen a ha
      rw [← map_fst_allocateRun size as₁]
      exact List.mem_map_of_mem hy
  rw [hout, htake, hset, List.toFinset_card_of_nodup h.nodup]
  show (allocate size (allocateRun size as₁).1 x.1).2 = _
  rw [allocate, if_neg hnew, if_pos hroom]

/-- A value has no number if it is not one of those that used them up. -/
theorem run_none_iff {x : α × Option ℕ} (h : (allocateRun size as).2 = before ++ x :: after) :
    x.2 = none ↔ x.1 ∉ withNumber before ∧ (withNumber before).card = size := by
  obtain ⟨table, htable, hout⟩ := Allocated.split h
  rw [hout, allocate_eq_none htable.length_le, htable.withNumber_eq, List.mem_toFinset,
    List.toFinset_card_of_nodup htable.nodup]

/-- Numbers are below the size of the table. -/
theorem run_number_lt {x : α × Option ℕ} (hx : x ∈ (allocateRun size as).2) {s : ℕ}
    (hs : x.2 = some s) : s < size := by
  have h := allocated_run size as
  have hmem : x.1 ∈ (allocateRun size as).1 := by
    rw [← number_ne_none, ← h.out x hx, hs]
    exact Option.some_ne_none s
  rw [h.out x hx, number_of_mem hmem, Option.some.injEq] at hs
  exact hs ▸ Nat.lt_of_lt_of_le (List.idxOf_lt_length_of_mem hmem) h.length_le

end Lib
