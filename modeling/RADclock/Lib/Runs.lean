import Mathlib.Tactic.Common

/-!
# Runs of a step function

A system is a step function on states, driven by a list of actions (inputs, or the choices of
a scheduler). A property of every reachable state is a property of the state after any list
of actions.

- `runSteps`: the state after a list of actions.
- `StepsMeet C`: every action of the run meets the condition `C` in the state it finds.
- `runSteps_inv`: what holds initially and is kept by every step that meets `C` holds of every
  state a run that meets `C` reaches.
- `Steps`, `Along`: the runs of a step function that can fail, and what holds of each of their
  steps.
- `along_congr`, `along_inv`, `Steps.inv`: the rules for them. `Steps.filter` is the rule for runs
  that leave steps out.
- `runOut`: runs of a step function with outputs; `runOut_sim` is the rule of simulation for them.
-/

namespace Lib

variable {σ τ α β : Type}

/-- The state after a list of actions. -/
def runSteps (step : σ → α → σ) : σ → List α → σ
  | s, [] => s
  | s, a :: as => runSteps step (step s a) as

theorem runSteps_append (step : σ → α → σ) (as bs : List α) :
    ∀ s, runSteps step s (as ++ bs) = runSteps step (runSteps step s as) bs := by
  induction as with
  | nil => exact fun _ => rfl
  | cons a as ih => exact fun s => ih (step s a)

/-- Every action meets `C` in the state it finds. -/
def StepsMeet (C : σ → α → Prop) (step : σ → α → σ) : σ → List α → Prop
  | _, [] => True
  | s, a :: as => C s a ∧ StepsMeet C step (step s a) as

instance decidableStepsMeet (C : σ → α → Prop) [∀ s, DecidablePred (C s)] (step : σ → α → σ) :
    ∀ s as, Decidable (StepsMeet C step s as)
  | _, [] => inferInstanceAs (Decidable True)
  | s, a :: as =>
    have := decidableStepsMeet C step (step s a) as
    inferInstanceAs (Decidable (C s a ∧ StepsMeet C step (step s a) as))

theorem stepsMeet_true {step : σ → α → σ} (as : List α) :
    ∀ s, StepsMeet (fun _ _ => True) step s as := by
  induction as with
  | nil => exact fun _ => trivial
  | cons a as ih => exact fun s => ⟨trivial, ih _⟩

theorem runSteps_inv {C : σ → α → Prop} {step : σ → α → σ} {I : σ → Prop}
    (hstep : ∀ s a, I s → C s a → I (step s a)) (as : List α) :
    ∀ s, I s → StepsMeet C step s as → I (runSteps step s as) := by
  induction as with
  | nil => exact fun s h _ => h
  | cons a as ih => exact fun s h hm => ih _ (hstep s a h hm.1) hm.2

/-- What is equivalent at every step from a state of the invariant is equivalent along runs. -/
theorem stepsMeet_congr {P Q : σ → α → Prop} {step : σ → α → σ} {I : σ → Prop}
    (hstep : ∀ s a, I s → I (step s a)) (h : ∀ s a, I s → (P s a ↔ Q s a)) (as : List α) :
    ∀ s, I s → (StepsMeet P step s as ↔ StepsMeet Q step s as) := by
  induction as with
  | nil => exact fun _ _ => Iff.rfl
  | cons a as ih => exact fun s hI => and_congr (h s a hI) (ih _ (hstep s a hI))

/-! ## Steps that can fail -/

/-- The run that takes the actions from one state to the other. -/
inductive Steps (step : σ → α → Option σ) : σ → List α → σ → Prop where
  | nil (s : σ) : Steps step s [] s
  | cons {s s' s'' : σ} {a : α} {as : List α} (head : step s a = some s')
      (tail : Steps step s' as s'') : Steps step s (a :: as) s''

/-- `P` holds of every step of the run; a step that fails ends it. -/
def Along (step : σ → α → Option σ) (P : σ → α → σ → Prop) : σ → List α → Prop
  | _, [] => True
  | s, a :: as => ∀ s', step s a = some s' → P s a s' ∧ Along step P s' as

theorem along_cons_of_some {step : σ → α → Option σ} {P : σ → α → σ → Prop} {s s' : σ} {a : α}
    {as : List α} (h : step s a = some s') :
    P s a s' ∧ Along step P s' as ↔ Along step P s (a :: as) := by
  constructor
  · rintro hP t ht
    obtain rfl := Option.some.inj (h.symm.trans ht)
    exact hP
  · exact fun hP => hP s' h

theorem along_cons_of_none {step : σ → α → Option σ} {P : σ → α → σ → Prop} {s : σ} {a : α}
    {as : List α} (h : step s a = none) : Along step P s (a :: as) := by
  intro t ht
  rw [h] at ht
  cases ht

instance decidableAlong (step : σ → α → Option σ) (P : σ → α → σ → Prop)
    [∀ s a s', Decidable (P s a s')] : ∀ s as, Decidable (Along step P s as)
  | _, [] => inferInstanceAs (Decidable True)
  | s, a :: as =>
    match h : step s a with
    | none => isTrue (along_cons_of_none h)
    | some s' =>
      have := decidableAlong step P s' as
      decidable_of_iff _ (along_cons_of_some h)

/-- What is equivalent at every step is equivalent along every run. -/
theorem along_congr {step : σ → α → Option σ} {P Q : σ → α → σ → Prop}
    (h : ∀ s a s', step s a = some s' → (P s a s' ↔ Q s a s')) (as : List α) :
    ∀ s, Along step P s as ↔ Along step Q s as := by
  induction as with
  | nil => exact fun _ => Iff.rfl
  | cons a as ih =>
    intro s
    constructor
    · intro hP s' hs
      exact ⟨(h s a s' hs).mp (hP s' hs).1, (ih s').mp (hP s' hs).2⟩
    · intro hQ s' hs
      exact ⟨(h s a s' hs).mpr (hQ s' hs).1, (ih s').mpr (hQ s' hs).2⟩

/-- What every step from a state of the invariant has, every step of a run has. -/
theorem along_inv {step : σ → α → Option σ} {C P : σ → α → σ → Prop} {I : σ → Prop}
    (h : ∀ s a s', I s → step s a = some s' → C s a s' → I s' ∧ P s a s') (as : List α) :
    ∀ s, I s → Along step C s as → Along step P s as := by
  induction as with
  | nil => exact fun _ _ _ => trivial
  | cons a as ih =>
    intro s hI hC s' hs
    obtain ⟨hI', hP⟩ := h s a s' hI hs (hC s' hs).1
    exact ⟨hP, ih s' hI' (hC s' hs).2⟩

/-- What every step that meets the condition keeps holds at the end of the run. -/
theorem Steps.inv {step : σ → α → Option σ} {C : σ → α → σ → Prop} {I : σ → Prop}
    (hstep : ∀ s a s', I s → step s a = some s' → C s a s' → I s') {s s' : σ} {as : List α}
    (h : Steps step s as s') : I s → Along step C s as → I s' := by
  induction h with
  | nil s => exact fun hI _ => hI
  | cons head tail ih =>
    intro hI hC
    exact ih (hstep _ _ _ hI head (hC _ head).1) (hC _ head).2

/-- Unwinding. Where the steps that are left out keep a relation on the left alone, and the others
keep it when both sides take them, a run can do without the former. -/
theorem Steps.filter {step : σ → α → Option σ} {keep : α → Bool} {C : α → Prop} {R : σ → σ → Prop}
    (hkeep : ∀ s a s' t, C a → keep a = true → R s t → step s a = some s' →
      ∃ t', step t a = some t' ∧ R s' t')
    (hskip : ∀ s a s' t, C a → keep a = false → R s t → step s a = some s' → R s' t)
    {s s' : σ} {as : List α} (h : Steps step s as s') (hC : ∀ a ∈ as, C a) :
    ∀ t, R s t → ∃ t', Steps step t (as.filter keep) t' ∧ R s' t' := by
  induction h with
  | nil s => exact fun t hR => ⟨t, .nil t, hR⟩
  | cons head tail ih =>
    intro t hR
    obtain ⟨ha, has⟩ := List.forall_mem_cons.mp hC
    rename_i a as
    cases hk : keep a with
    | true =>
      obtain ⟨t₁, hstep, hR₁⟩ := hkeep _ _ _ t ha hk hR head
      obtain ⟨t', hrest, hR'⟩ := ih has t₁ hR₁
      rw [List.filter_cons_of_pos hk]
      exact ⟨t', .cons hstep hrest, hR'⟩
    | false =>
      rw [List.filter_cons_of_neg (by rw [hk]; decide)]
      exact ih has t (hskip _ _ _ t ha hk hR head)

/-! ## Steps with outputs -/

/-- The state after a list of actions, and their outputs. -/
def runOut (step : σ → α → σ × β) : σ → List α → σ × List β
  | s, [] => (s, [])
  | s, a :: as => ((runOut step (step s a).1 as).1, (step s a).2 :: (runOut step (step s a).1 as).2)

theorem runOut_append (step : σ → α → σ × β) (as bs : List α) :
    ∀ s, runOut step s (as ++ bs) = ((runOut step (runOut step s as).1 bs).1,
      (runOut step s as).2 ++ (runOut step (runOut step s as).1 bs).2) := by
  induction as with
  | nil => exact fun _ => rfl
  | cons a as ih =>
    intro s
    rw [List.cons_append, runOut, ih]
    rfl

/-- Outputs that are computed from others. -/
theorem runOut_map {γ : Type} (step : σ → α → σ × β) (g : β → γ) (as : List α) :
    ∀ s, runOut (fun s a => ((step s a).1, g (step s a).2)) s as =
      ((runOut step s as).1, (runOut step s as).2.map g) := by
  induction as with
  | nil => exact fun _ => rfl
  | cons a as ih =>
    intro s
    rw [runOut, ih]
    rfl

/-- An output is that of a step from the state that the earlier actions lead to. -/
theorem runOut_split {step : σ → α → σ × β} {before after : List β} {b : β} (as : List α) :
    ∀ s, (runOut step s as).2 = before ++ b :: after →
      ∃ as₁ a as₂, as = as₁ ++ a :: as₂ ∧ (runOut step s as₁).2 = before ∧
        (step (runOut step s as₁).1 a).2 = b := by
  induction as generalizing before with
  | nil => exact fun s h => absurd h (by simp [runOut])
  | cons a as ih =>
    intro s h
    cases before with
    | nil => exact ⟨[], a, as, rfl, rfl, (List.cons.inj h).1⟩
    | cons b' before =>
      obtain ⟨hhead, htail⟩ := List.cons.inj h
      obtain ⟨as₁, a', as₂, rfl, hbefore, hout⟩ := ih _ htail
      exact ⟨a :: as₁, a', as₂, rfl, congrArg₂ List.cons hhead hbefore, hout⟩

/-- Steps that keep a relation and have equal outputs. The relation may depend on the actions that
are still to come. -/
theorem runOut_sim {step : σ → α → σ × β} {step' : τ → α → τ × β} {R : List α → σ → τ → Prop}
    (hstep : ∀ a as s t, R (a :: as) s t →
      (step s a).2 = (step' t a).2 ∧ R as (step s a).1 (step' t a).1) (as : List α) :
    ∀ s t, R as s t → (runOut step s as).2 = (runOut step' t as).2 ∧
      R [] (runOut step s as).1 (runOut step' t as).1 := by
  induction as with
  | nil => exact fun _ _ h => ⟨rfl, h⟩
  | cons a as ih =>
    intro s t h
    obtain ⟨hout, hnext⟩ := hstep a as s t h
    obtain ⟨houts, hend⟩ := ih _ _ hnext
    exact ⟨congrArg₂ List.cons hout houts, hend⟩

end Lib
