import Mathlib.Tactic.Linarith
import RADclock.Lib.Rounding

/-!
# The patterns of doubles

The 64-bit pattern of a finite double, read as an unsigned integer, orders the doubles without a
sign as they are. Those with a sign come after all of them, and the wrong way round.

- `order`: the pattern read as sign and magnitude, with one zero.
- `Float.lt_iff_order`: among finite doubles `<` is the order of that.
-/

namespace Lib

open Float.Model UnpackedFloat

/-- A pattern read as a sign bit and a magnitude. -/
def order (bits : UInt64) : ℤ :=
  if bits.toNat < 2 ^ 63 then bits.toNat else 2 ^ 63 - bits.toNat

/-! ## Sign, exponent and mantissa in a pattern -/

/-- The sign bit in its place. -/
def signBit : Sign → ℕ
  | .positive => 0
  | .negative => 2 ^ 63

theorem toNat_unpackMantissa (b : BitVec 64) :
    (@unpackMantissa Format.binary64 b).toNat = b.toNat % 2 ^ 52 := by
  unfold unpackMantissa
  rw [BitVec.toNat_cast, BitVec.extractLsb_toNat, Nat.shiftRight_zero]
  rfl

theorem toNat_unpackExponent (b : BitVec 64) :
    (@unpackExponent Format.binary64 b).toNat = b.toNat / 2 ^ 52 % 2 ^ 11 := by
  unfold unpackExponent
  rw [BitVec.toNat_cast, BitVec.extractLsb_toNat, Nat.shiftRight_eq_div_pow]
  rfl

theorem signBit_unpackSign (b : BitVec 64) :
    signBit (Sign.ofBitVec (@unpackSign Format.binary64 b)) = 2 ^ 63 * (b.toNat / 2 ^ 63) := by
  have hsign : (@unpackSign Format.binary64 b).toNat = b.toNat / 2 ^ 63 % 2 := by
    unfold unpackSign
    rw [BitVec.toNat_cast, BitVec.extractLsb_toNat, Nat.shiftRight_eq_div_pow]
    rfl
  have hlt := b.isLt
  unfold Sign.ofBitVec
  split
  · next h =>
    rw [h] at hsign
    change 0 = _ at hsign
    show 0 = _
    omega
  · next h =>
    have hne : (@unpackSign Format.binary64 b).toNat ≠ 0 := fun h0 => h (BitVec.eq_of_toNat_eq h0)
    show 2 ^ 63 = _
    omega

/-- The pattern without its sign: the exponent stands above the mantissa, whose highest bit is left
out when it is known to be set. -/
def magnitude (m : ℕ) (e : ℤ) : ℕ := m + 2 ^ 52 * (e + 1074).toNat

/-- What a finite double is, and its pattern, in terms of a mantissa and an exponent. -/
structure Parts (x : Float) (s : Sign) (m : ℕ) (e : ℤ) : Prop where
  fits : Fits m e
  exponent : e ≤ 971
  value : value x.toModel.unpack = signed s (m * 2 ^ e)
  bits : x.toBits.toNat = signBit s + magnitude m e

theorem parts_of_finite {x : Float} (hx : x.isFinite = true) : ∃ s m e, Parts x s m e := by
  have hm := toNat_unpackMantissa x.toBits.toBitVec
  have he := toNat_unpackExponent x.toBits.toBitVec
  have hs := signBit_unpackSign x.toBits.toBitVec
  have hlt : x.toBits.toBitVec.toNat < 2 ^ 64 := x.toBits.toBitVec.isLt
  have hbias : Format.binary64.exponentBias = 1023 := rfl
  have hmantissa := toNat_append_one (@unpackMantissa Format.binary64 x.toBits.toBitVec)
  change x.toModel.unpack.isFinite = true at hx
  have hcanon := canonical_unpack x.toModel
  -- the pattern is put together from its three fields
  have hbits : x.toBits.toNat =
      signBit (Sign.ofBitVec (@unpackSign Format.binary64 x.toBits.toBitVec)) +
        ((@unpackMantissa Format.binary64 x.toBits.toBitVec).toNat +
          2 ^ 52 * (@unpackExponent Format.binary64 x.toBits.toBitVec).toNat) := by
    change x.toBits.toBitVec.toNat = _
    omega
  generalize hsign : Sign.ofBitVec (@unpackSign Format.binary64 x.toBits.toBitVec) = s at hbits
  have hunpack : x.toModel.unpack = UnpackedFloat.unpack Format.binary64 x.toBits.toBitVec := rfl
  unfold UnpackedFloat.unpack at hunpack
  simp only [hbias, hsign] at hunpack
  split_ifs at hunpack with hmax hinf hsub hzero
  · rw [hunpack] at hx
    cases hx
  · rw [hunpack] at hx
    cases hx
  · refine ⟨s, 0, -1074, ⟨by decide, by decide, .inr rfl⟩, by decide, ?_, ?_⟩
    · rw [hunpack]
      cases s <;> simp [Lib.value, signed]
    · rw [hbits, hzero, hsub]
      rfl
  · rw [hunpack, hsub] at hcanon
    refine ⟨s, _, _, hcanon.1, hcanon.2, ?_, ?_⟩
    · rw [hunpack, hsub]
      rfl
    · rw [hbits, hsub]
      rfl
  · have hne : (@unpackExponent Format.binary64 x.toBits.toBitVec).toNat ≠ 0 :=
      fun h => hsub (BitVec.eq_of_toNat_eq h)
    rw [hunpack] at hcanon
    refine ⟨s, _, _, hcanon.1, hcanon.2, ?_, ?_⟩
    · rw [hunpack]
      rfl
    · rw [hbits, hmantissa]
      unfold magnitude
      push_cast
      omega

/-! ## The order -/

section

variable {m n : ℕ} {e f : ℤ}

/-- Magnitudes are compared by their exponents, then by their mantissas. -/
theorem magnitude_lt (hm : Fits m e) (hn : Fits n f) :
    magnitude m e < magnitude n f ↔ (m : ℚ) * 2 ^ e < n * 2 ^ f := by
  rw [magnitude_lt_iff hm hn]
  obtain ⟨hm1, hm2, hm3⟩ := hm
  obtain ⟨hn1, hn2, hn3⟩ := hn
  unfold magnitude
  omega

theorem magnitude_le (hm : Fits m e) (he : e ≤ 971) : magnitude m e < 2 ^ 63 := by
  have h := hm.mantissa
  unfold magnitude
  omega

theorem magnitude_pos (hm : Fits m e) : 0 < magnitude m e ↔ (0 : ℚ) < m * 2 ^ e := by
  rw [mul_pos_iff_of_pos_right (by positivity), Nat.cast_pos]
  obtain ⟨h1, h2, h3⟩ := hm
  unfold magnitude
  omega

end

theorem Parts.order_eq {x : Float} {s : Sign} {m : ℕ} {e : ℤ} (h : Parts x s m e) :
    order x.toBits = s.apply (magnitude m e) := by
  have hlt := magnitude_le h.fits h.exponent
  have hbits := h.bits
  unfold order
  cases s with
  | positive =>
    change x.toBits.toNat = 0 + _ at hbits
    rw [if_pos (by omega), hbits]
    simp [Sign.apply]
  | negative =>
    change x.toBits.toNat = 2 ^ 63 + _ at hbits
    rw [if_neg (by omega), hbits]
    show (2 ^ 63 - ((2 ^ 63 + magnitude m e : ℕ) : ℤ)) = -(magnitude m e : ℤ)
    push_cast
    ring

/-- Signed magnitudes are compared alike in two scales that agree on magnitudes. -/
theorem signed_lt_iff {a b : ℚ} {k l : ℕ} (hlt : k < l ↔ a < b) (hgt : l < k ↔ b < a)
    (hk : 0 < k ↔ 0 < a) (hl : 0 < l ↔ 0 < b) (ha : 0 ≤ a) (hb : 0 ≤ b) (s t : Sign) :
    signed s a < signed t b ↔ s.apply k < t.apply l := by
  cases s <;> cases t
  · show -a < -b ↔ -(k : ℤ) < -(l : ℤ)
    rw [neg_lt_neg_iff, neg_lt_neg_iff, ← hgt, Nat.cast_lt]
  · show -a < b ↔ -(k : ℤ) < (l : ℤ)
    have hsum : 0 < a + b ↔ 0 < k ∨ 0 < l := by
      rw [hk, hl]
      constructor
      · intro h
        by_contra hnot
        rw [not_or, not_lt, not_lt] at hnot
        linarith [hnot.1, hnot.2]
      · rintro (h | h) <;> linarith
    rw [neg_lt_iff_pos_add', hsum]
    omega
  · show a < -b ↔ (k : ℤ) < -(l : ℤ)
    exact iff_of_false (by linarith) (by omega)
  · show a < b ↔ (k : ℤ) < (l : ℤ)
    rw [← hlt, Nat.cast_lt]

theorem isNaN_of_isFinite {x : Float} (hx : x.isFinite = true) : x.isNaN = false := by
  change x.toModel.unpack.isFinite = true at hx
  show x.toModel.unpack.isNaN = false
  cases hu : x.toModel.unpack with
  | notANumber =>
    rw [hu] at hx
    cases hx
  | _ => rfl

/-- Among finite doubles `<` is the order of their patterns, read as sign and magnitude. -/
theorem Float.lt_iff_order {x y : Float} (hx : x.isFinite = true) (hy : y.isFinite = true) :
    x < y ↔ order x.toBits < order y.toBits := by
  obtain ⟨s, m, e, hxp⟩ := parts_of_finite hx
  obtain ⟨t, n, f, hyp⟩ := parts_of_finite hy
  rw [Float.lt_iff, compare_lt_iff_value (canonical_unpack _) hx (canonical_unpack _) hy, hxp.value,
    hyp.value, hxp.order_eq, hyp.order_eq]
  exact signed_lt_iff (magnitude_lt hxp.fits hyp.fits) (magnitude_lt hyp.fits hxp.fits)
    (magnitude_pos hxp.fits) (magnitude_pos hyp.fits) (by positivity) (by positivity) s t

end Lib
