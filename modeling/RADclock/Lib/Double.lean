import Mathlib

/-!
# Comparing doubles

`==` and `<` on `Float` do not follow equality: there are two zeros, and a NaN equals nothing.
But they cannot tell equal numbers apart, and that is what a program relies on when it compares
before it assigns.

- `compare_congr`: equal numbers compare alike with every number.
- `rank`: where a number stands in the order. Among numbers `<` is a strict linear order, up to
  the zeros.
- `SameNumber`: equal as numbers, or identical (a NaN). An equivalence.
-/

namespace Lib

open Float.Model

/-! ## On unpacked floats -/

/-- Equal numbers are the same, or zeros. -/
theorem eq_or_zeros_of_compare {u v : UnpackedFloat} (h : u.compare v = some .eq) :
    u = v ∨ ∃ s t, u = .zero s ∧ v = .zero t := by
  cases u with
  | notANumber => cases v <;> simp [UnpackedFloat.compare] at h
  | infinity s =>
    cases v with
    | infinity t =>
      cases s <;> cases t <;> first | exact .inl rfl | exact absurd h (by decide)
    | _ => cases s <;> simp [UnpackedFloat.compare] at h
  | zero s =>
    cases v with
    | zero t => exact .inr ⟨s, t, rfl, rfl⟩
    | notANumber => simp [UnpackedFloat.compare] at h
    | infinity t => cases t <;> simp [UnpackedFloat.compare] at h
    | finite t => cases t <;> simp [UnpackedFloat.compare] at h
  | finite s m e hm =>
    cases v with
    | finite t m' e' hm' =>
      have heq : (compare e e').then (compare m m') = .eq → e = e' ∧ m = m' := by
        intro h
        rw [Ordering.then_eq_eq] at h
        exact ⟨Std.LawfulEqOrd.eq_of_compare h.1, Std.LawfulEqOrd.eq_of_compare h.2⟩
      cases s <;> cases t <;> simp only [UnpackedFloat.compare, Option.some.injEq, reduceCtorEq,
        Ordering.swap_eq_eq] at h
      · obtain ⟨rfl, rfl⟩ := heq h
        exact .inl rfl
      · obtain ⟨rfl, rfl⟩ := heq h
        exact .inl rfl
    | notANumber => cases s <;> simp [UnpackedFloat.compare] at h
    | infinity t => cases s <;> cases t <;> simp [UnpackedFloat.compare] at h
    | zero t => cases s <;> simp [UnpackedFloat.compare] at h

/-- The sign of a zero does not matter. -/
theorem compare_zero_left (s t : UnpackedFloat.Sign) (w : UnpackedFloat) :
    (UnpackedFloat.zero s).compare w = (UnpackedFloat.zero t).compare w := by
  cases w with
  | infinity r => cases r <;> rfl
  | finite r => cases r <;> rfl
  | _ => rfl

/-- Both zeros compare alike. -/
theorem compare_zero_right (s t : UnpackedFloat.Sign) (w : UnpackedFloat) :
    w.compare (UnpackedFloat.zero s) = w.compare (UnpackedFloat.zero t) := by
  cases w with
  | infinity r => cases r <;> rfl
  | finite r => cases r <;> rfl
  | _ => rfl

/-- Equal numbers compare alike with every number. -/
theorem compare_congr {u v : UnpackedFloat} (h : u.compare v = some .eq) (w : UnpackedFloat) :
    u.compare w = v.compare w ∧ w.compare u = w.compare v := by
  rcases eq_or_zeros_of_compare h with rfl | ⟨s, t, rfl, rfl⟩
  · exact ⟨rfl, rfl⟩
  · exact ⟨compare_zero_left s t w, compare_zero_right s t w⟩

/-- Equality is symmetric. -/
theorem compare_symm {u v : UnpackedFloat} (h : u.compare v = some .eq) :
    v.compare u = some .eq := by
  rcases eq_or_zeros_of_compare h with rfl | ⟨s, t, rfl, rfl⟩
  · exact h
  · rfl

/-- Where a number stands in the order: sign and kind, then exponent and mantissa. -/
def rank : UnpackedFloat → Int × Int × Int
  | .notANumber => (0, 0, 0)
  | .infinity .negative => (-2, 0, 0)
  | .infinity .positive => (2, 0, 0)
  | .zero _ => (0, 0, 0)
  | .finite .negative m e _ => (-1, -e, -m)
  | .finite .positive m e _ => (1, e, m)

/-- The lexicographic order of ranks. -/
def Before (a b : Int × Int × Int) : Prop :=
  a.1 < b.1 ∨ a.1 = b.1 ∧ (a.2.1 < b.2.1 ∨ a.2.1 = b.2.1 ∧ a.2.2 < b.2.2)

instance (a b : Int × Int × Int) : Decidable (Before a b) :=
  inferInstanceAs (Decidable (_ ∨ _ ∧ (_ ∨ _ ∧ _)))

/-- By exponent first, then by mantissa. -/
theorem then_lt_iff {e e' : Int} {m m' : Nat} :
    (compare e e').then (compare m m') = .lt ↔ e < e' ∨ e = e' ∧ m < m' := by
  rw [Ordering.then_eq_lt, Int.compare_eq_lt, Int.compare_eq_eq, Nat.compare_eq_lt]

/-- The other way round. -/
theorem then_gt_iff {e e' : Int} {m m' : Nat} :
    (compare e e').then (compare m m') = .gt ↔ e' < e ∨ e = e' ∧ m' < m := by
  rw [Ordering.then_eq_gt, Int.compare_eq_gt, Int.compare_eq_eq, Nat.compare_eq_gt]

/-- `<` is the order of ranks, between numbers. -/
theorem compare_lt_iff (u v : UnpackedFloat) :
    u.compare v = some .lt ↔ u.isNaN = false ∧ v.isNaN = false ∧ Before (rank u) (rank v) := by
  cases u with
  | notANumber => cases v <;> simp [UnpackedFloat.compare, UnpackedFloat.isNaN]
  | infinity s =>
    cases v with
    | infinity t => cases s <;> cases t <;> decide
    | finite t => cases s <;> cases t <;>
        simp [UnpackedFloat.compare, UnpackedFloat.isNaN, Before, rank]
    | _ => cases s <;> simp [UnpackedFloat.compare, UnpackedFloat.isNaN, Before, rank]
  | zero s =>
    cases v with
    | infinity t => cases t <;> simp [UnpackedFloat.compare, UnpackedFloat.isNaN, Before, rank]
    | finite t => cases t <;> simp [UnpackedFloat.compare, UnpackedFloat.isNaN, Before, rank]
    | _ => simp [UnpackedFloat.compare, UnpackedFloat.isNaN, Before, rank]
  | finite s m e hm =>
    cases v with
    | finite t m' e' hm' =>
      cases s <;> cases t <;>
        simp only [UnpackedFloat.compare, UnpackedFloat.isNaN, Before, rank, Option.some.injEq,
          then_lt_iff, then_gt_iff, Ordering.swap_eq_lt, reduceCtorEq, true_and, false_and,
            or_false, true_iff, false_iff] <;> omega
    | infinity t => cases s <;> cases t <;>
        simp [UnpackedFloat.compare, UnpackedFloat.isNaN, Before, rank]
    | _ => cases s <;> simp [UnpackedFloat.compare, UnpackedFloat.isNaN, Before, rank]

/-- A number is equal to itself, unless it is none. -/
theorem compare_self_iff (u : UnpackedFloat) : u.compare u = some .eq ↔ u.isNaN = false := by
  cases u with
  | notANumber => decide
  | infinity s => cases s <;> decide
  | zero s => simp [UnpackedFloat.compare, UnpackedFloat.isNaN]
  | finite s m e hm =>
    cases s <;> simp [UnpackedFloat.compare, UnpackedFloat.isNaN]

/-! ## On doubles -/

/-- The equality of floats, as a comparison. -/
theorem Float.beq_iff {a b : Float} :
    (a == b) = true ↔ a.toModel.unpack.compare b.toModel.unpack = some .eq :=
  beq_iff_eq (a := a.toModel.unpack.compare b.toModel.unpack) (b := some .eq)

/-- The order of floats, as a comparison. -/
theorem Float.lt_iff {a b : Float} :
    a < b ↔ a.toModel.unpack.compare b.toModel.unpack = some .lt := by
  show (decide (a.toModel < b.toModel)) = true ↔ _
  rw [decide_eq_true_iff]
  exact beq_iff_eq (a := a.toModel.unpack.compare b.toModel.unpack) (b := some .lt)

section
variable {a b : Float} (h : (a == b) = true)
include h

/-- Equal floats are equal to the same ones. -/
theorem Float.beq_congr (c : Float) : (a == c) = (b == c) := by
  have hcmp := (compare_congr (Float.beq_iff.mp h) c.toModel.unpack).1
  rw [Bool.eq_iff_iff, Float.beq_iff, Float.beq_iff, hcmp]

/-- And different from the same ones. -/
theorem Float.bne_congr (c : Float) : (a != c) = (b != c) := by
  rw [bne, bne, Float.beq_congr h]

/-- And below the same ones. -/
theorem Float.lt_congr_left (c : Float) : a < c ↔ b < c := by
  rw [Float.lt_iff, Float.lt_iff, (compare_congr (Float.beq_iff.mp h) c.toModel.unpack).1]

/-- And above the same ones. -/
theorem Float.lt_congr_right (c : Float) : c < a ↔ c < b := by
  rw [Float.lt_iff, Float.lt_iff, (compare_congr (Float.beq_iff.mp h) c.toModel.unpack).2]

/-- The equality is symmetric. -/
theorem Float.beq_comm_of : (b == a) = true :=
  Float.beq_iff.mpr (compare_symm (Float.beq_iff.mp h))

end

/-- The order of floats is that of their ranks. -/
theorem Float.lt_iff_rank {a b : Float} : a < b ↔ a.isNaN = false ∧ b.isNaN = false ∧
    Before (rank a.toModel.unpack) (rank b.toModel.unpack) :=
  Float.lt_iff.trans (compare_lt_iff _ _)

/-- Nothing is below itself. -/
theorem Float.lt_irrefl (a : Float) : ¬ a < a := by
  rw [Float.lt_iff_rank]
  unfold Before
  omega

/-- The order is transitive. -/
theorem Float.lt_trans {a b c : Float} (h : a < b) (h' : b < c) : a < c := by
  rw [Float.lt_iff_rank] at h h' ⊢
  refine ⟨h.1, h'.2.1, ?_⟩
  have h1 := h.2.2
  have h2 := h'.2.2
  unfold Before at h1 h2 ⊢
  omega

/-- A number between two others is above the one or below the other. -/
theorem Float.lt_or_lt {a b c : Float} (h : a < b) (hc : c.isNaN = false) : a < c ∨ c < b := by
  rw [Float.lt_iff_rank] at h ⊢
  rw [Float.lt_iff_rank]
  have h1 := h.2.2
  by_cases hac : Before (rank a.toModel.unpack) (rank c.toModel.unpack)
  · exact Or.inl ⟨h.1, hc, hac⟩
  · refine Or.inr ⟨hc, h.2.1, ?_⟩
    unfold Before at h1 hac ⊢
    omega

/-- Nothing is left after infinity is taken away. -/
theorem sub_infinity (u : UnpackedFloat) :
    u.sub .binary64 (.infinity .positive) = .notANumber ∨
      u.sub .binary64 (.infinity .positive) = .infinity .negative := by
  cases u with
  | notANumber => exact .inl rfl
  | infinity s => cases s <;> first | exact .inl rfl | exact .inr rfl
  | zero s => exact .inr rfl
  | finite s m e hm => exact .inr rfl

/-- The negated difference from infinity is infinite, or no number: it is below nothing. -/
theorem Float.neg_sub_inf_not_lt (x y : Float) : ¬ -(x - 1.0 / 0.0) < y := by
  have hsub : (-(x - 1.0 / 0.0)).toModel.unpack = (Float.Model.pack (Float.Model.pack
      (x.toModel.unpack.sub .binary64 (.infinity .positive))).unpack.neg).unpack := rfl
  rw [Float.lt_iff, hsub]
  rcases sub_infinity x.toModel.unpack with hcase | hcase
  · rw [hcase]
    show ¬ UnpackedFloat.compare .notANumber y.toModel.unpack = some .lt
    cases y.toModel.unpack <;> simp [UnpackedFloat.compare]
  · rw [hcase]
    show ¬ UnpackedFloat.compare (.infinity .positive) y.toModel.unpack = some .lt
    cases y.toModel.unpack with
    | infinity s => cases s <;> simp [UnpackedFloat.compare]
    | _ => simp [UnpackedFloat.compare]

/-- A float is equal to itself, unless it is no number. -/
theorem Float.beq_self_iff_isNaN {a : Float} : (a == a) = true ↔ a.isNaN = false :=
  Float.beq_iff.trans (compare_self_iff _)

/-- Equal as numbers, or identical. -/
def SameNumber (a b : Float) : Prop := a = b ∨ (a == b) = true

instance (a b : Float) : Decidable (SameNumber a b) :=
  inferInstanceAs (Decidable (a = b ∨ (a == b) = true))

/-- The same float. -/
theorem SameNumber.refl (a : Float) : SameNumber a a := .inl rfl

/-- The same either way round. -/
theorem SameNumber.symm {a b : Float} (h : SameNumber a b) : SameNumber b a := by
  rcases h with rfl | h
  · exact .inl rfl
  · exact .inr (Float.beq_comm_of h)

/-- And through a third. -/
theorem SameNumber.trans {a b c : Float} (h : SameNumber a b) (h' : SameNumber b c) :
    SameNumber a c := by
  rcases h with rfl | h
  · exact h'
  · rcases h' with rfl | h'
    · exact .inr h
    · exact .inr (by rw [Float.beq_congr h, h'])

/-- The same numbers are below the same ones. -/
theorem SameNumber.lt_left {a b : Float} (h : SameNumber a b) (c : Float) : a < c ↔ b < c := by
  rcases h with rfl | h
  · rfl
  · exact Float.lt_congr_left h c

/-- And above the same ones. -/
theorem SameNumber.lt_right {a b : Float} (h : SameNumber a b) (c : Float) : c < a ↔ c < b := by
  rcases h with rfl | h
  · rfl
  · exact Float.lt_congr_right h c

/-- And equal to the same ones. -/
theorem SameNumber.beq {a b : Float} (h : SameNumber a b) (c : Float) : (a == c) = (b == c) := by
  rcases h with rfl | h
  · rfl
  · exact Float.beq_congr h c

end Lib
