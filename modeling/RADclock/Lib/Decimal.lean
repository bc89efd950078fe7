import Mathlib.Algebra.Order.Floor.Semifield
import Mathlib.Algebra.Order.Round
import Mathlib.RingTheory.Int.Basic
import Mathlib.Data.Rat.Floor
import Mathlib.Tactic.FieldSimp
import Mathlib.Tactic.Linarith
import Mathlib.Tactic.NormNum.Prime
import Mathlib.Tactic.Ring
import RADclock.Lib.Scan

/-!
# Numbers of a binary format, printed with finitely many decimals

`DecimalText D` is a floating-point format as formatted input and output see it: every value has
a sign and a magnitude, which is a binary fraction, and a decimal number is read as a value
nearest to it. That much is what the C standard and IEEE 754 say of `double` and `long double`.

- `printDecimals k`: `%.kf`.
- `decimals_read_print`: a printed number, read and printed again, is the same text. What is read
  agrees with what was printed in every decimal that was printed, whatever the precision of the
  format.
-/

namespace Lib

/-! ## Rounding to an integer -/

/-- To the nearest integer, half-way cases to the even one. -/
def roundHalfEven (q : ℚ) : ℕ :=
  if q - ⌊q⌋₊ < 1 / 2 then ⌊q⌋₊
  else if 1 / 2 < q - ⌊q⌋₊ then ⌊q⌋₊ + 1
  else if ⌊q⌋₊ % 2 = 0 then ⌊q⌋₊ else ⌊q⌋₊ + 1

theorem abs_roundHalfEven_sub_le {q : ℚ} (hq : 0 ≤ q) : |(roundHalfEven q : ℚ) - q| ≤ 1 / 2 := by
  have hle := Nat.floor_le hq
  have hlt := Nat.lt_floor_add_one q
  rw [abs_le]
  unfold roundHalfEven
  split_ifs <;> push_cast <;> constructor <;> linarith

/-- A number nearer than half to `n` is rounded to `n`. -/
theorem roundHalfEven_eq {q : ℚ} (hq : 0 ≤ q) {n : ℕ} (h : |(n : ℚ) - q| < 1 / 2) :
    roundHalfEven q = n := by
  have hr := abs_roundHalfEven_sub_le hq
  rw [abs_lt] at h
  rw [abs_le] at hr
  have hlt : (roundHalfEven q : ℚ) < n + 1 := by linarith
  have hgt : (n : ℚ) < roundHalfEven q + 1 := by linarith
  have hlt' : roundHalfEven q < n + 1 := by exact_mod_cast hlt
  have hgt' : n < roundHalfEven q + 1 := by exact_mod_cast hgt
  omega

/-- It is a nearest integer. -/
theorem roundHalfEven_best (q : ℚ) (n : ℕ) : |(roundHalfEven q : ℚ) - q| ≤ |(n : ℚ) - q| := by
  rcases le_or_gt 0 q with hq | hq
  · rcases lt_or_ge |(n : ℚ) - q| (1 / 2) with h | h
    · rw [roundHalfEven_eq hq h]
    · exact le_trans (abs_roundHalfEven_sub_le hq) h
  · have hzero : roundHalfEven q = 0 := by
      have hfloor : ⌊q⌋₊ = 0 := Nat.floor_of_nonpos hq.le
      rw [roundHalfEven, hfloor, if_pos (by push_cast; linarith)]
    have hn : (0 : ℚ) ≤ n := Nat.cast_nonneg n
    rw [hzero, Nat.cast_zero, zero_sub, abs_of_pos (by linarith), abs_of_pos (by linarith)]
    linarith

/-! ## Formats -/

/-- A format of finite numbers, with the conversions of formatted input and output. -/
class DecimalText (D : Type) where
  neg : D → Bool
  mag : D → ℚ
  /-- `strtod`, `strtold`. -/
  ofNumber : Number → D
  mag_nonneg : ∀ x, 0 ≤ mag x
  /-- A value is a binary fraction. -/
  dyadic : ∀ x, ∃ m k : ℕ, mag x * 2 ^ k = m
  neg_decimal : ∀ b m e, neg (ofNumber (.decimal b m e)) = b
  /-- A decimal number that does not exceed all values is read as a nearest value. -/
  nearest : ∀ b (m : ℕ) (e : ℤ) x y, (m : ℚ) * 10 ^ e ≤ mag x + 1 →
    |mag (ofNumber (.decimal b m e)) - m * 10 ^ e| ≤ |mag y - m * 10 ^ e|

namespace DecimalText

variable {D : Type} [DecimalText D]

/-- The magnitude in units of the `k`-th decimal. -/
def decimals (k : ℕ) (x : D) : ℕ := roundHalfEven (mag x * 10 ^ k)

/-- `%.kf`. -/
def printDecimals (k : ℕ) (x : D) : Text := printFixed k (neg x) (decimals k x)

theorem abs_decimals_sub_le (k : ℕ) (x : D) : |(decimals k x : ℚ) - mag x * 10 ^ k| ≤ 1 / 2 :=
  abs_roundHalfEven_sub_le (mul_nonneg (mag_nonneg x) (by positivity))

/-- Two values are never exactly one decimal unit apart. -/
theorem abs_sub_ne_one {k : ℕ} (hk : 0 < k) (x y : D) : |mag x * 10 ^ k - mag y * 10 ^ k| ≠ 1 := by
  obtain ⟨m, i, hm⟩ := dyadic x
  obtain ⟨n, j, hn⟩ := dyadic y
  intro h
  have hsq : (mag x * 10 ^ k - mag y * 10 ^ k) ^ 2 = 1 := by rw [← sq_abs, h, one_pow]
  have hint : ((m * 2 ^ j - n * 2 ^ i : ℤ) * 10 ^ k) ^ 2 = ((2 ^ i * 2 ^ j : ℤ)) ^ 2 := by
    have hrat : ((m * 2 ^ j - n * 2 ^ i : ℚ) * 10 ^ k) ^ 2 = ((2 ^ i * 2 ^ j : ℚ)) ^ 2 := by
      rw [← hm, ← hn]
      calc ((mag x * 2 ^ i * 2 ^ j - mag y * 2 ^ j * 2 ^ i) * 10 ^ k) ^ 2
          = (2 ^ i * 2 ^ j) ^ 2 * (mag x * 10 ^ k - mag y * 10 ^ k) ^ 2 := by ring
        _ = (2 ^ i * 2 ^ j) ^ 2 := by rw [hsq, mul_one]
    exact_mod_cast hrat
  -- Five divides the left-hand side, and no power of two.
  have hfive : (5 : ℤ) ∣ (2 ^ i * 2 ^ j) ^ 2 := by
    rw [← hint]
    have h10 : (5 : ℤ) ∣ 10 ^ k := dvd_pow (by norm_num) hk.ne'
    exact Dvd.dvd.pow (dvd_mul_of_dvd_right h10 _) (by norm_num)
  have hprime : Prime (5 : ℤ) := Nat.prime_iff_prime_int.mp (by norm_num)
  have hmul := hprime.dvd_of_dvd_pow hfive
  rcases hprime.dvd_or_dvd hmul with h2 | h2
  · exact absurd (hprime.dvd_of_dvd_pow h2) (by norm_num)
  · exact absurd (hprime.dvd_of_dvd_pow h2) (by norm_num)

/-- What is read agrees with what was printed in every decimal that was printed. -/
theorem decimals_read_print {k : ℕ} (hk : 0 < k) (b : Bool) (x : D) :
    decimals k (ofNumber (.decimal b (decimals k x) (-k)) : D) = decimals k x := by
  have hpow : (0 : ℚ) < 10 ^ k := by positivity
  have hx := abs_decimals_sub_le k x
  have hdec : (decimals k x : ℚ) * 10 ^ (-k : ℤ) = decimals k x / 10 ^ k := by
    rw [zpow_neg, zpow_natCast, div_eq_mul_inv]
  have hnear := nearest b (decimals k x) (-k) x x
  rw [hdec] at hnear
  have hrange : (decimals k x : ℚ) / 10 ^ k ≤ mag x + 1 := by
    have h1 : (1 : ℚ) ≤ 10 ^ k := one_le_pow₀ (by norm_num)
    rw [div_le_iff₀ hpow]
    have := (abs_le.mp hx).2
    nlinarith
  have hdist := hnear hrange
  generalize hy : (ofNumber (.decimal b (decimals k x) (-k)) : D) = y at hdist ⊢
  generalize hn : decimals k x = n at *
  -- In units of the last decimal, the value read is no farther from `n` than `x` is.
  have hscale : ∀ z : D, |(n : ℚ) - mag z * 10 ^ k| = |mag z - n / 10 ^ k| * 10 ^ k := by
    intro z
    rw [abs_sub_comm, ← abs_of_pos hpow, ← abs_mul, abs_of_pos hpow, sub_mul,
      div_mul_cancel₀ _ hpow.ne']
  have hcloser : |(n : ℚ) - mag y * 10 ^ k| ≤ |(n : ℚ) - mag x * 10 ^ k| := by
    rw [hscale, hscale]
    exact mul_le_mul_of_nonneg_right hdist hpow.le
  have hnonneg : 0 ≤ mag y * 10 ^ k := mul_nonneg (mag_nonneg y) hpow.le
  rcases lt_or_ge |(n : ℚ) - mag y * 10 ^ k| (1 / 2) with h | h
  · exact roundHalfEven_eq hnonneg h
  · -- Both are half-way, so they are the same value or a whole unit apart.
    have hy2 : |(n : ℚ) - mag y * 10 ^ k| = 1 / 2 := le_antisymm (le_trans hcloser hx) h
    have hx2 : |(n : ℚ) - mag x * 10 ^ k| = 1 / 2 := le_antisymm hx (le_trans h hcloser)
    have hsame : mag y * 10 ^ k = mag x * 10 ^ k := by
      have hne := abs_sub_ne_one hk x y
      rcases abs_eq (by norm_num) |>.mp hy2 with hy2 | hy2 <;>
        rcases abs_eq (by norm_num) |>.mp hx2 with hx2 | hx2
      · linarith
      · refine absurd ?_ hne
        rw [abs_of_pos (by linarith)]
        linarith
      · refine absurd ?_ hne
        rw [abs_of_neg (by linarith)]
        linarith
      · linarith
    rw [← hn]
    unfold decimals
    rw [hsame]

/-- So a number that was printed, read and printed again gives the same text. -/
theorem printDecimals_read_print {k : ℕ} (hk : 0 < k) (x : D) :
    printDecimals k (ofNumber (.decimal (neg x) (decimals k x) (-k)) : D) = printDecimals k x := by
  rw [printDecimals, neg_decimal, decimals_read_print hk, printDecimals]

theorem scanLongDouble_printDecimals {k : ℕ} (hk : 0 < k) (x : D) {r : Text} (hr : Delimited r) :
    scanLongDouble (printDecimals k x ++ r) = .assigned (.decimal (neg x) (decimals k x) (-k)) r :=
  scanLongDouble_printFixed (neg x) k (decimals k x) hk hr

end DecimalText

end Lib
