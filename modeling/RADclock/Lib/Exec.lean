import Mathlib.Tactic.Common

/-!
# Traced computations

`Exec ε α` is a computation that emits events of type `ε` and either returns an
`α` or *halts* (a null dereference, a loop that never ends). The events emitted
before a halt stay visible, so a property of "every access the program makes"
is a property of the log, whether or not the program survives the access.

`Exec.Sat P H m Q` is the one judgement used about such programs: every event
of `m` satisfies `P`, a result satisfies `Q`, and a halt is only possible when
`H` holds. `H = False` is total correctness, `H = True` partial correctness, and
the rules (`Sat.pure`, `Sat.bind`, `Sat.emit`, `Sat.halt`, `Sat.mono`) serve both.
-/

namespace Lib

/-- A computation with an event log; `res = none` means it halted. -/
structure Exec (ε α : Type) where
  log : List ε
  res : Option α

namespace Exec

variable {ε α β : Type}

protected def pure (a : α) : Exec ε α := ⟨[], some a⟩

/-- Sequencing: after a halt nothing more is emitted. -/
protected def bind (m : Exec ε α) (f : α → Exec ε β) : Exec ε β :=
  match m.res with
  | none => ⟨m.log, none⟩
  | some a => ⟨m.log ++ (f a).log, (f a).res⟩

instance : Monad (Exec ε) where
  pure := Exec.pure
  bind := Exec.bind

instance : LawfulMonad (Exec ε) := LawfulMonad.mk' (Exec ε)
  (fun m => by
    obtain ⟨log, res⟩ := m
    show Exec.bind _ Exec.pure = _
    cases res with
    | none => rfl
    | some a => simp [Exec.bind, Exec.pure])
  (fun _ _ => rfl)
  (fun m f g => by
    show Exec.bind (Exec.bind m f) g = Exec.bind m fun a => Exec.bind (f a) g
    unfold Exec.bind
    cases m.res with
    | none => rfl
    | some a => cases hr : (f a).res <;> simp [hr])

/-- Emit one event. -/
def emit (e : ε) : Exec ε Unit := ⟨[e], some ()⟩

/-- Stop without a result. -/
def halt : Exec ε α := ⟨[], none⟩

/-- Dereference a pointer: a null pointer halts the program. -/
def deref : Option α → Exec ε α
  | none => halt
  | some a => pure a

/-- Every event satisfies `P`; a result satisfies `Q`; a halt needs `H`. -/
def Sat (P : ε → Prop) (H : Prop) (m : Exec ε α) (Q : α → Prop) : Prop :=
  (∀ e ∈ m.log, P e) ∧ Option.elim m.res H Q

variable {P : ε → Prop} {H : Prop} {Q : α → Prop}

/-- A value returned. -/
theorem Sat.pure {a : α} (h : Q a) : Sat P H (Pure.pure a : Exec ε α) Q :=
  ⟨fun _ he => (nomatch he), h⟩

/-- One computation after the other, through what the first one is known to return. -/
theorem Sat.bind {m : Exec ε α} {f : α → Exec ε β} {R : β → Prop}
    (hm : Sat P H m Q) (hf : ∀ a, Q a → Sat P H (f a) R) :
    Sat P H (m >>= f) R := by
  obtain ⟨hlog, hres⟩ := hm
  show Sat P H (Exec.bind m f) R
  unfold Exec.bind
  cases hr : m.res with
  | none =>
    rw [hr] at hres
    exact ⟨hlog, hres⟩
  | some a =>
    rw [hr] at hres
    obtain ⟨hlog', hres'⟩ := hf a hres
    refine ⟨fun e he => ?_, hres'⟩
    rcases List.mem_append.mp he with h | h
    · exact hlog e h
    · exact hlog' e h

/-- An event emitted. -/
theorem Sat.emit {e : ε} {Q : Unit → Prop} (he : P e) (hq : Q ()) :
    Sat P H (Exec.emit e) Q :=
  ⟨fun _ h => List.mem_singleton.mp h ▸ he, hq⟩

/-- A computation that stops may do so only if that is allowed. -/
theorem Sat.halt (h : H) : Sat P H (Exec.halt : Exec ε α) Q :=
  ⟨fun _ he => (nomatch he), h⟩

/-- A pointer that may be null only if stopping is allowed. -/
theorem Sat.deref {p : Option α} (hnull : p = none → H) (hq : ∀ a, p = some a → Q a) :
    Sat P H (Exec.deref p) Q := by
  cases p with
  | none => exact Sat.halt (hnull rfl)
  | some a => exact Sat.pure (hq a rfl)

/-- Less may be said of the result. -/
theorem Sat.mono {m : Exec ε α} {Q' : α → Prop} (h : Sat P H m Q)
    (hq : ∀ a, Q a → Q' a) : Sat P H m Q' := by
  refine ⟨h.1, ?_⟩
  have hres := h.2
  cases hr : m.res with
  | none =>
    rw [hr] at hres
    exact hres
  | some a =>
    rw [hr] at hres
    exact hq a hres

/-- Either branch, under its condition. -/
theorem Sat.ite {c : Prop} [Decidable c] {m n : Exec ε α}
    (hm : c → Sat P H m Q) (hn : ¬c → Sat P H n Q) :
    Sat P H (if c then m else n) Q := by
  by_cases h : c
  · rw [if_pos h]
    exact hm h
  · rw [if_neg h]
    exact hn h

/-- A judgement about the result of a computation that did return. -/
theorem Sat.res {m : Exec ε α} (h : Sat P H m Q) {a : α} (hr : m.res = some a) : Q a := by
  have hres := h.2
  rw [hr] at hres
  exact hres

/-! ## Results alone, events alone

Partial correctness splits: what a result looks like can be said without following the
events, and which events there are without following the results. -/

/-- Every result of `m` satisfies `Q`. -/
def Returns (m : Exec ε α) (Q : α → Prop) : Prop := ∀ a, m.res = some a → Q a

/-- A value returned. -/
theorem Returns.pure {a : α} (h : Q a) : Returns (Pure.pure a : Exec ε α) Q :=
  fun _ hr => Option.some.inj hr ▸ h

/-- One computation after the other. -/
theorem Returns.bind {m : Exec ε α} {f : α → Exec ε β} {R : β → Prop}
    (hm : Returns m Q) (hf : ∀ a, Q a → Returns (f a) R) : Returns (m >>= f) R := by
  intro b hb
  cases hr : m.res with
  | none =>
    have hnone : (m >>= f).res = none := by
      show (Exec.bind m f).res = none
      rw [Exec.bind, hr]
    rw [hnone] at hb
    cases hb
  | some a =>
    have hsome : (m >>= f).res = (f a).res := by
      show (Exec.bind m f).res = _
      rw [Exec.bind, hr]
    rw [hsome] at hb
    exact hf a (hm a hr) b hb

/-- The first computation only matters through its result being some value. -/
theorem Returns.skip {m : Exec ε α} {f : α → Exec ε β} {R : β → Prop}
    (hf : ∀ a, Returns (f a) R) : Returns (m >>= f) R :=
  Returns.bind (Q := fun _ => True) (fun _ _ => True.intro) fun a _ => hf a

/-- Either branch, under its condition. -/
theorem Returns.ite {c : Prop} [Decidable c] {m n : Exec ε α}
    (hm : c → Returns m Q) (hn : ¬c → Returns n Q) : Returns (if c then m else n) Q := by
  by_cases h : c
  · rw [if_pos h]
    exact hm h
  · rw [if_neg h]
    exact hn h

/-- Less may be said of the result. -/
theorem Returns.mono {m : Exec ε α} {Q' : α → Prop} (h : Returns m Q)
    (hq : ∀ a, Q a → Q' a) : Returns m Q' := fun a hr => hq a (h a hr)

/-- Two facts about the result. -/
theorem Returns.and {m : Exec ε α} {Q' : α → Prop} (h : Returns m Q) (h' : Returns m Q') :
    Returns m (fun a => Q a ∧ Q' a) := fun a hr => ⟨h a hr, h' a hr⟩

/-- Facts that agree on the result agree. -/
theorem Returns.congr_iff {m : Exec ε α} {Q' : α → Prop} (h : Returns m fun a => (Q a ↔ Q' a)) :
    Returns m Q ↔ Returns m Q' :=
  ⟨fun hq a ha => (h a ha).mp (hq a ha), fun hq a ha => (h a ha).mpr (hq a ha)⟩

/-- Continuations only matter on results. -/
theorem Returns.bind_congr {m : Exec ε α} {f g : α → Exec ε β} (h : Returns m fun a => f a = g a) :
    m >>= f = m >>= g := by
  show Exec.bind m f = Exec.bind m g
  unfold Exec.bind
  cases hr : m.res with
  | none => rfl
  | some a =>
    dsimp only
    rw [h a hr]

/-- Strengthen a postcondition by what is known of every result. -/
theorem Sat.and_returns {m : Exec ε α} {Q' : α → Prop} (h : Sat P H m Q)
    (h' : Returns m Q') : Sat P H m (fun a => Q a ∧ Q' a) := by
  refine ⟨h.1, ?_⟩
  have hres := h.2
  cases hr : m.res with
  | none =>
    rw [hr] at hres
    exact hres
  | some a =>
    rw [hr] at hres
    exact ⟨hres, h' a hr⟩

/-- Every event of `m` satisfies `P`. -/
def Emits (P : ε → Prop) (m : Exec ε α) : Prop := ∀ e ∈ m.log, P e

/-- A value returned emits nothing. -/
theorem Emits.pure {a : α} : Emits P (Pure.pure a : Exec ε α) := fun _ he => (nomatch he)

/-- Nor does a stop. -/
theorem Emits.halt : Emits P (Exec.halt : Exec ε α) := fun _ he => (nomatch he)

/-- Nor does a pointer read. -/
theorem Emits.deref {p : Option α} : Emits P (Exec.deref p : Exec ε α) := by
  cases p with
  | none => exact Emits.halt
  | some a => exact Emits.pure

/-- An event emits itself. -/
theorem Emits.emit {e : ε} (he : P e) : Emits P (Exec.emit e) :=
  fun _ h => List.mem_singleton.mp h ▸ he

/-- Events of the first computation and then of the second. -/
theorem Emits.bind {m : Exec ε α} {f : α → Exec ε β} (hm : Emits P m)
    (hf : ∀ a, Emits P (f a)) : Emits P (m >>= f) := by
  intro e he
  change e ∈ (Exec.bind m f).log at he
  unfold Exec.bind at he
  cases hr : m.res with
  | none =>
    rw [hr] at he
    exact hm e he
  | some a =>
    rw [hr] at he
    rcases List.mem_append.mp he with h | h
    · exact hm e h
    · exact hf a e h

/-- Events of either branch. -/
theorem Emits.ite {c : Prop} [Decidable c] {m n : Exec ε α}
    (hm : Emits P m) (hn : Emits P n) : Emits P (if c then m else n) := by
  by_cases h : c
  · rw [if_pos h]
    exact hm
  · rw [if_neg h]
    exact hn

/-- Less may be said of the events. -/
theorem Emits.mono {P' : ε → Prop} {m : Exec ε α} (h : Emits P m) (hp : ∀ e, P e → P' e) :
    Emits P' m := fun e he => hp e (h e he)

/-- Partial correctness from its two halves. -/
theorem Sat.of_returns {m : Exec ε α} (he : Emits P m) (hr : Returns m Q) :
    Sat P True m Q := by
  refine ⟨he, ?_⟩
  cases h : m.res with
  | none => exact True.intro
  | some a => exact hr a h

/-- What is known of the events. -/
theorem Sat.emits {m : Exec ε α} (h : Sat P H m Q) : Emits P m := h.1

/-- What is known of the result. -/
theorem Sat.returns {m : Exec ε α} (h : Sat P H m Q) : Returns m Q := fun _ => h.res

/-- Whenever `m` returns, it has emitted `e`. -/
def Surely (e : ε) (m : Exec ε α) : Prop := ∀ a, m.res = some a → e ∈ m.log

/-- An event that is emitted is in the log. -/
theorem Surely.emit (e : ε) : Surely e (Exec.emit e) := fun _ _ => List.mem_singleton.mpr rfl

/-- It stays there whatever comes after. -/
theorem Surely.left {e : ε} {m : Exec ε α} {f : α → Exec ε β} (hm : Surely e m) :
    Surely e (m >>= f) := by
  intro b hb
  change (Exec.bind m f).res = some b at hb
  change e ∈ (Exec.bind m f).log
  unfold Exec.bind at hb ⊢
  cases hr : m.res with
  | none =>
    rw [hr] at hb
    cases hb
  | some a => exact List.mem_append_left _ (hm a hr)

/-- It may come later. -/
theorem Surely.right {e : ε} {m : Exec ε α} {f : α → Exec ε β} (hm : Returns m Q)
    (hf : ∀ a, Q a → Surely e (f a)) : Surely e (m >>= f) := by
  intro b hb
  change (Exec.bind m f).res = some b at hb
  change e ∈ (Exec.bind m f).log
  unfold Exec.bind at hb ⊢
  cases hr : m.res with
  | none =>
    rw [hr] at hb
    cases hb
  | some a =>
    rw [hr] at hb
    exact List.mem_append_right _ (hf a (hm a hr) b hb)

/-- As `Surely.right`, with nothing known of the first result. -/
theorem Surely.skip {e : ε} {m : Exec ε α} {f : α → Exec ε β} (hf : ∀ a, Surely e (f a)) :
    Surely e (m >>= f) :=
  Surely.right (Q := fun _ => True) (fun _ _ => True.intro) fun a _ => hf a

/-- Both branches emit it. -/
theorem Surely.ite {e : ε} {c : Prop} [Decidable c] {m n : Exec ε α} (hm : c → Surely e m)
    (hn : ¬c → Surely e n) : Surely e (if c then m else n) := by
  by_cases h : c
  · rw [if_pos h]
    exact hm h
  · rw [if_neg h]
    exact hn h

/-! ## Inversion of `bind` -/

/-- A computation that returns has returned from both its parts. -/
theorem bind_res_some {m : Exec ε α} {f : α → Exec ε β} {b : β} :
    (m >>= f).res = some b ↔ ∃ a, m.res = some a ∧ (f a).res = some b := by
  show (Exec.bind m f).res = some b ↔ _
  unfold Exec.bind
  cases hr : m.res with
  | none => simp
  | some a => simp

/-- Its events are those of the first and then those of the second. -/
theorem bind_log_of_some {m : Exec ε α} {f : α → Exec ε β} {a : α}
    (h : m.res = some a) : (m >>= f).log = m.log ++ (f a).log := by
  show (Exec.bind m f).log = _
  unfold Exec.bind
  rw [h]

/-- A computation that cannot halt has a result. -/
theorem Sat.exists_res {m : Exec ε α} (h : Sat P False m Q) : ∃ a, m.res = some a ∧ Q a := by
  have hres := h.2
  cases hr : m.res with
  | none =>
    rw [hr] at hres
    exact hres.elim
  | some a =>
    rw [hr] at hres
    exact ⟨a, rfl, hres⟩

/-- The same result, with what is known of the events. -/
theorem Sat.with_emits {P' : ε → Prop} {m : Exec ε α} (h : Sat P H m Q) (he : Emits P' m) :
    Sat P' H m Q := ⟨he, h.2⟩

/-- Events of the second part, from what the first is known to return. -/
theorem Sat.bind_emits {m : Exec ε α} {f : α → Exec ε β} (hm : Sat P H m Q)
    (hf : ∀ a, Q a → Emits P (f a)) : Emits P (m >>= f) := by
  intro e he
  change e ∈ (Exec.bind m f).log at he
  unfold Exec.bind at he
  cases hr : m.res with
  | none =>
    rw [hr] at he
    exact hm.1 e he
  | some a =>
    rw [hr] at he
    rcases List.mem_append.mp he with h | h
    · exact hm.1 e h
    · exact hf a (hm.res hr) e h

/-- What follows a computation that cannot halt is emitted. -/
theorem mem_bind_log_right {m : Exec ε α} {f : α → Exec ε β} {e : ε} (hm : Sat P False m Q)
    (hf : ∀ a, Q a → e ∈ (f a).log) : e ∈ (m >>= f).log := by
  obtain ⟨a, hr, ha⟩ := hm.exists_res
  rw [bind_log_of_some hr]
  exact List.mem_append_right _ (hf a ha)

/-- What the first computation emitted stays in the log. -/
theorem mem_bind_log_left {m : Exec ε α} {f : α → Exec ε β} {e : ε}
    (h : e ∈ m.log) : e ∈ (m >>= f).log := by
  show e ∈ (Exec.bind m f).log
  unfold Exec.bind
  cases m.res with
  | none => exact h
  | some a => exact List.mem_append_left _ h

end Exec

end Lib
