import Mathlib.Tactic.Common

/-!
# Records one after another in memory

A memory that records are appended to, each a stride behind the one before, and a reader that goes
from one to the next by what it reads. What a record looks like is left open: `holds mem p r` says
that the record `r` is at `p`, in the `span r` bytes from there on.

- `Laid`: the records from an offset on, up to where the next one goes.
- `Laid.append`: one more record, where nothing before it is touched.
- `walk`, `walk_laid`: the reader finds all of them, in order.
-/

namespace Lib

variable {β ρ ν : Type} {holds : (Nat → β) → Nat → ρ → Prop} {span stride : ρ → Nat}

/-- The records from the first offset on; the next one goes to the second. -/
inductive Laid (holds : (Nat → β) → Nat → ρ → Prop) (span stride : ρ → Nat) (mem : Nat → β)
    (used : Nat) : Nat → List ρ → Nat → Prop where
  | nil {p : Nat} (free : used ≤ p) : Laid holds span stride mem used p [] p
  | cons {p q : Nat} {r : ρ} {rs : List ρ} (head : holds mem p r) (fits : p + span r ≤ used)
      (tail : Laid holds span stride mem used (p + stride r) rs q) :
      Laid holds span stride mem used p (r :: rs) q

theorem Laid.append {mem mem' : Nat → β} {used used' p q : Nat} {rs : List ρ} {r : ρ}
    (hlocal : ∀ p r, (∀ i, p ≤ i → i < p + span r → mem' i = mem i) → holds mem p r →
      holds mem' p r)
    (h : Laid holds span stride mem used p rs q) (hold : ∀ i < used, mem' i = mem i)
    (hnew : holds mem' q r) (hgrow : used ≤ used') (hfits : q + span r ≤ used')
    (hfree : used' ≤ q + stride r) :
    Laid holds span stride mem' used' p (rs ++ [r]) (q + stride r) := by
  induction h with
  | nil _ => exact .cons hnew hfits (.nil hfree)
  | cons head fits _ ih =>
    refine .cons (hlocal _ _ (fun i _ hi => hold i (by omega)) head) (by omega) ?_
    exact ih hnew hfits hfree

/-- What a reader sees from an offset on, with what it reads at a record and how far it goes. -/
def walk (view : (Nat → β) → Nat → ν) (next : (Nat → β) → Nat → Nat) (mem : Nat → β) (used : Nat) :
    Nat → Nat → List ν
  | 0, _ => []
  | fuel + 1, p =>
    if p < used then view mem p :: walk view next mem used fuel (p + next mem p) else []

/-- The reader sees each record once, in order; it needs a step for each and one to stop. -/
theorem walk_laid {view : (Nat → β) → Nat → ν} {next : (Nat → β) → Nat → Nat} {seen : ρ → ν}
    {mem : Nat → β} {used : Nat} (hview : ∀ p r, holds mem p r → view mem p = seen r)
    (hnext : ∀ p r, holds mem p r → next mem p = stride r) (hspan : ∀ r, 0 < span r)
    {p q fuel : Nat} {rs : List ρ} (h : Laid holds span stride mem used p rs q)
    (hfuel : rs.length ≤ fuel) : walk view next mem used fuel p = rs.map seen := by
  induction h generalizing fuel with
  | nil free =>
    cases fuel with
    | zero => rfl
    | succ fuel =>
      rw [walk, if_neg (by omega)]
      rfl
  | @cons p q r rs head fits _ ih =>
    cases fuel with
    | zero => cases hfuel
    | succ fuel =>
      have hpos := hspan r
      rw [walk, if_pos (by omega), hview p r head, hnext p r head,
        ih (Nat.le_of_succ_le_succ hfuel)]
      rfl

/-- The records take up room. -/
theorem Laid.length_le {mem : Nat → β} {used p q : Nat} {rs : List ρ}
    (h : Laid holds span stride mem used p rs q) (hspan : ∀ r, 0 < span r)
    (hstride : ∀ r, span r ≤ stride r) : rs.length ≤ used - p := by
  induction h with
  | nil _ => exact Nat.zero_le _
  | @cons p q r rs _ fits _ ih =>
    have hpos := hspan r
    have hle := hstride r
    rw [List.length_cons]
    omega

end Lib
