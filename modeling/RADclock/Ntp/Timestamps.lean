import RADclock.Lib.Bintime
import RADclock.Lib.Memory
import RADclock.Lib.Real

/-!
# Timestamps on the wire and of the system (`misc.h`)

A time of the clock, in seconds since 1970, is written as an NTP timestamp or as a `timeval`: its
integer part is truncated, and the fraction that is left is rounded to the unit of the format. A
fraction that is rounded up to a whole second is not carried.

- `utcldToNtptime`, `ntptimeToUtcld`, `utcldToTimeval`, `subtractTv`: the code.
- `ntptime_roundTrip`: the times that come back from the wire.
- `timeval_correct`: the times that fit into a `timeval`, and the differences that do.
-/

namespace Lib.Timeval

/-- The microseconds are less than a second. -/
def Normal (tv : Timeval) : Prop := 0 ≤ tv.tvUsec ∧ tv.tvUsec < 1000000

/-- A `timeval` in microseconds. -/
def usecs (tv : Timeval) : Int := 1000000 * tv.tvSec + tv.tvUsec

/-- A `timeval` in seconds. -/
noncomputable def secs (tv : Timeval) : ℝ := tv.tvSec + tv.tvUsec / 1000000

end Lib.Timeval

namespace RADclock.Ntp

open Lib

/-! ## The code -/

/-- `JAN_1970`, an `unsigned int`. -/
def jan1970 : UInt32 := 2208988800

/-- `l_fp`. -/
structure LFp where
  lInt : UInt32
  lFra : UInt32
deriving DecidableEq, Repr

/-- `htonl`, and `ntohl`. -/
def htonl (big : Bool) (v : UInt32) : UInt32 := .ofNat (ntoh big 4 v.toNat)

/-- A timestamp as the fields of a packet carry it. -/
def LFp.hton (big : Bool) (ts : LFp) : LFp := ⟨htonl big ts.lInt, htonl big ts.lFra⟩

section

variable {D : Type} [Arith D]

/-- The conversion `(uint32_t)`. Beyond the range of the type the low bits are left. -/
def toUint32 (x : D) : UInt32 := .ofNat (Arith.toNat x)

/-- `UTCld_to_NTPtime`. -/
def utcldToNtptime (time : D) : LFp :=
  let lInt := toUint32 time
  let lFra := toUint32 (4294967296.0 * (time - Arith.ofNat lInt.toNat) + 0.5)
  ⟨lInt + jan1970, lFra⟩

/-- `NTPtime_to_UTCld`. -/
def ntptimeToUtcld (big : Bool) (ntpTs : LFp) : D :=
  Arith.ofNat (htonl big ntpTs.lInt - jan1970).toNat +
    Arith.ofNat (htonl big ntpTs.lFra).toNat / 4294967296.0

/-- `UTCld_to_timeval`. -/
def utcldToTimeval (time : D) : Timeval :=
  let tvSec := (toUint32 time).toNat
  ⟨tvSec, (toUint32 (Arith.ofNat 1000000 * (time - Arith.ofNat tvSec) + 0.5)).toNat⟩

end

/-- `subtract_tv`. No difference of times since 1970 overflows the signed fields. -/
def subtractTv (tv1 tv2 : Timeval) : Timeval :=
  -- Perform the carry
  let nsec := (tv2.tvUsec - tv1.tvUsec).tdiv 1000000 + 1
  let tv2 : Timeval :=
    if tv1.tvUsec < tv2.tvUsec then ⟨tv2.tvSec + nsec, tv2.tvUsec - 1000000 * nsec⟩ else tv2
  let nsec := (tv1.tvUsec - tv2.tvUsec).tdiv 1000000
  let tv2 : Timeval :=
    if tv1.tvUsec - tv2.tvUsec > 1000000 then ⟨tv2.tvSec - nsec, tv2.tvUsec + 1000000 * nsec⟩
    else tv2
  ⟨tv1.tvSec - tv2.tvSec, tv1.tvUsec - tv2.tvUsec⟩

/-! ## Byte orders -/

theorem toNat_htonl (big : Bool) (v : UInt32) : (htonl big v).toNat = ntoh big 4 v.toNat := by
  have hlt : ntoh big 4 v.toNat < 2 ^ 32 := by
    cases big with
    | true => exact v.toNat_lt
    | false => exact swapBytes_lt 4 v.toNat
  rw [htonl, UInt32.toNat_ofNat', Nat.mod_eq_of_lt hlt]

@[simp]
theorem htonl_htonl (big : Bool) (v : UInt32) : htonl big (htonl big v) = v := by
  rw [← UInt32.toNat_inj, toNat_htonl, toNat_htonl]
  cases big with
  | true => rfl
  | false =>
    show ofBytes (toBytes 4 (swapBytes 4 v.toNat)).reverse = v.toNat
    rw [toBytes_swapBytes, List.reverse_reverse, ofBytes_toBytes]
    exact Nat.mod_eq_of_lt v.toNat_lt

@[simp]
theorem hton_hton (big : Bool) (ts : LFp) : (ts.hton big).hton big = ts := by
  simp [LFp.hton]

/-! ## Truncation and rounding -/

theorem toNat_toUint32 {x : ℝ} (h : ⌊x⌋₊ < 2 ^ 32) : (toUint32 x).toNat = ⌊x⌋₊ := by
  show (UInt32.ofNat ⌊x⌋₊).toNat = _
  rw [UInt32.toNat_ofNat', Nat.mod_eq_of_lt h]

theorem toNat_toUint32_lt (x : ℝ) : ((toUint32 x).toNat : ℝ) ≤ 2 ^ 32 - 1 := by
  have hlt := (toUint32 x).toNat_lt
  have hle : ((toUint32 x).toNat : ℝ) + 1 ≤ (2 ^ 32 : ℕ) := by exact_mod_cast hlt
  push_cast at hle
  linarith

section

variable {t : ℝ}

theorem floor_lt_of_lt (h0 : 0 ≤ t) (h : t < 2 ^ 32) : ⌊t⌋₊ < 2 ^ 32 := by
  rw [Nat.floor_lt h0]
  exact_mod_cast h

/-- Seconds in the range of the type are truncated. -/
theorem sub_toUint32 (h0 : 0 ≤ t) (h : t < 2 ^ 32) :
    t - ((toUint32 t).toNat : ℝ) = Int.fract t := by
  rw [toNat_toUint32 (floor_lt_of_lt h0 h), Int.fract, ← natCast_floor_eq_intCast_floor h0]

/-- What rounding to a multiple of `1 / n` makes of a fraction. -/
theorem abs_round_sub_le {f n : ℝ} (hf : 0 ≤ f) (hn : 0 < n) :
    |(⌊n * f + 1 / 2⌋₊ : ℝ) / n - f| ≤ 1 / (2 * n) := by
  have hle : (⌊n * f + 1 / 2⌋₊ : ℝ) ≤ n * f + 1 / 2 := Nat.floor_le (by positivity)
  have hlt : n * f + 1 / 2 < ⌊n * f + 1 / 2⌋₊ + 1 := Nat.lt_floor_add_one _
  have hdiv : (⌊n * f + 1 / 2⌋₊ : ℝ) / n - f = (⌊n * f + 1 / 2⌋₊ - n * f) / n := by
    field_simp
  rw [hdiv, abs_div, abs_of_pos hn, div_le_div_iff₀ hn (by positivity), one_mul, mul_comm]
  have habs : |(⌊n * f + 1 / 2⌋₊ : ℝ) - n * f| ≤ 1 / 2 := by
    rw [abs_le]
    constructor <;> linarith
  calc 2 * n * |(⌊n * f + 1 / 2⌋₊ : ℝ) - n * f| ≤ 2 * n * (1 / 2) := by gcongr
    _ = n := by ring

/-- The fraction is rounded up to a whole second exactly if half a unit is missing. -/
theorem round_lt_iff {f : ℝ} {n : ℕ} (hf : 0 ≤ f) (hn : 0 < n) :
    ⌊(n : ℝ) * f + 1 / 2⌋₊ < n ↔ f < 1 - 1 / (2 * n) := by
  have hn' : (0 : ℝ) < n := by exact_mod_cast hn
  rw [Nat.floor_lt (by positivity)]
  constructor
  · intro h
    rw [lt_sub_iff_add_lt, ← mul_lt_mul_iff_right₀ hn']
    calc (n : ℝ) * (f + 1 / (2 * n)) = n * f + 1 / 2 := by field_simp
      _ < n * 1 := by linarith
  · intro h
    calc (n : ℝ) * f + 1 / 2 < n * (1 - 1 / (2 * n)) + 1 / 2 := by gcongr
      _ = n := by field_simp; ring

theorem round_le {f : ℝ} {n : ℕ} (hf : f < 1) : ⌊(n : ℝ) * f + 1 / 2⌋₊ ≤ n := by
  rcases Nat.eq_zero_or_pos n with rfl | hn
  · norm_num
  · refine Nat.le_of_lt_succ ((Nat.floor_lt' (by omega)).mpr ?_)
    have hn' : (0 : ℝ) < n := by exact_mod_cast hn
    push_cast
    nlinarith

/-! ## The wire -/

/-- The two fields of a time in the range. -/
theorem utcldToNtptime_eq (h0 : 0 ≤ t) (h : t < 2 ^ 32) :
    utcldToNtptime t =
      ⟨.ofNat ⌊t⌋₊ + jan1970, .ofNat ⌊((2 ^ 32 : ℕ) : ℝ) * Int.fract t + 1 / 2⌋₊⟩ := by
  have hfrac : (4294967296.0 : ℝ) * (t - Arith.ofNat (toUint32 t).toNat) + 0.5 =
      ((2 ^ 32 : ℕ) : ℝ) * Int.fract t + 1 / 2 := by
    rw [← sub_toUint32 h0 h]
    show (4294967296.0 : ℝ) * (t - ((toUint32 t).toNat : ℝ)) + 0.5 = _
    norm_num
  unfold utcldToNtptime
  simp only [hfrac]
  rfl

/-- What is read from the wire. -/
theorem ntptimeToUtcld_hton (big : Bool) (ts : LFp) :
    (ntptimeToUtcld big (ts.hton big) : ℝ) =
      ((ts.lInt - jan1970).toNat : ℝ) + (ts.lFra.toNat : ℝ) / (2 ^ 32 : ℕ) := by
  show ((htonl big (htonl big ts.lInt) - jan1970).toNat : ℝ) +
    ((htonl big (htonl big ts.lFra)).toNat : ℝ) / 4294967296.0 = _
  rw [htonl_htonl, htonl_htonl]
  norm_num

theorem wire_error (big : Bool) (h0 : 0 ≤ t) (h : t < 2 ^ 32) :
    (ntptimeToUtcld big ((utcldToNtptime t).hton big) : ℝ) - t =
      ((⌊((2 ^ 32 : ℕ) : ℝ) * Int.fract t + 1 / 2⌋₊ % 2 ^ 32 : ℕ) : ℝ) / (2 ^ 32 : ℕ) -
        Int.fract t := by
  rw [ntptimeToUtcld_hton, utcldToNtptime_eq h0 h]
  dsimp only
  rw [UInt32.add_sub_cancel, UInt32.toNat_ofNat', UInt32.toNat_ofNat',
    Nat.mod_eq_of_lt (floor_lt_of_lt h0 h), Int.fract, ← natCast_floor_eq_intCast_floor h0]
  ring

/-- The fraction comes back unless it is rounded up to a whole second, which is lost. -/
theorem wire_error_le_iff (big : Bool) (h0 : 0 ≤ t) (h : t < 2 ^ 32) :
    |(ntptimeToUtcld big ((utcldToNtptime t).hton big) : ℝ) - t| ≤ 1 / 2 ^ 33 ↔
      Int.fract t < 1 - 1 / 2 ^ 33 := by
  have hf := Int.fract_nonneg t
  have hround := round_lt_iff (n := 2 ^ 32) hf (by norm_num)
  rw [show (1 : ℝ) - 1 / (2 * (2 ^ 32 : ℕ)) = 1 - 1 / 2 ^ 33 by norm_num] at hround
  rw [wire_error big h0 h]
  by_cases hlt : Int.fract t < 1 - 1 / 2 ^ 33
  · rw [Nat.mod_eq_of_lt (hround.mpr hlt)]
    refine iff_of_true ?_ hlt
    calc _ ≤ 1 / (2 * ((2 ^ 32 : ℕ) : ℝ)) := abs_round_sub_le hf (by norm_num)
      _ = 1 / 2 ^ 33 := by norm_num
  · have heq : ⌊((2 ^ 32 : ℕ) : ℝ) * Int.fract t + 1 / 2⌋₊ = 2 ^ 32 :=
      le_antisymm (round_le (Int.fract_lt_one t)) (not_lt.mp (mt hround.mp hlt))
    rw [heq, Nat.mod_self, Nat.cast_zero, zero_div, zero_sub, abs_neg, abs_of_nonneg hf]
    refine iff_of_false (fun hle => hlt (hle.trans_lt (by norm_num))) hlt

/-- A timestamp of the era is read as a time that is written as it was. -/
theorem utcldToNtptime_hton (big : Bool) {ts : LFp} (h : jan1970 ≤ ts.lInt) :
    utcldToNtptime (ntptimeToUtcld big (ts.hton big) : ℝ) = ts := by
  have hint : (ts.lInt - jan1970).toNat = ts.lInt.toNat - jan1970.toNat :=
    UInt32.toNat_sub_of_le _ _ h
  have hjan : 1 ≤ jan1970.toNat := by decide
  have hlt := ts.lInt.toNat_lt
  have hlt' : (ts.lInt - jan1970).toNat + 1 ≤ 2 ^ 32 := by omega
  have hfra : (ts.lFra.toNat : ℝ) < (2 ^ 32 : ℕ) := by exact_mod_cast ts.lFra.toNat_lt
  have hpos : (0 : ℝ) < (2 ^ 32 : ℕ) := by norm_num
  have hfrac0 : (0 : ℝ) ≤ (ts.lFra.toNat : ℝ) / (2 ^ 32 : ℕ) :=
    div_nonneg (Nat.cast_nonneg _) hpos.le
  have hfrac1 : (ts.lFra.toNat : ℝ) / (2 ^ 32 : ℕ) < 1 := (div_lt_one hpos).mpr hfra
  rw [ntptimeToUtcld_hton]
  have hfloor : ⌊((ts.lInt - jan1970).toNat : ℝ) + (ts.lFra.toNat : ℝ) / (2 ^ 32 : ℕ)⌋₊ =
      (ts.lInt - jan1970).toNat := by
    rw [add_comm, Nat.floor_add_natCast hfrac0, Nat.floor_eq_zero.mpr hfrac1, Nat.zero_add]
  have hfract : Int.fract (((ts.lInt - jan1970).toNat : ℝ) + (ts.lFra.toNat : ℝ) / (2 ^ 32 : ℕ)) =
      (ts.lFra.toNat : ℝ) / (2 ^ 32 : ℕ) := by
    rw [Int.fract_natCast_add, Int.fract_eq_self.mpr ⟨hfrac0, hfrac1⟩]
  have hround : ⌊((2 ^ 32 : ℕ) : ℝ) * ((ts.lFra.toNat : ℝ) / (2 ^ 32 : ℕ)) + 1 / 2⌋₊ =
      ts.lFra.toNat := by
    rw [mul_div_cancel₀ _ hpos.ne', add_comm, Nat.floor_add_natCast (by norm_num),
      Nat.floor_eq_zero.mpr (by norm_num), Nat.zero_add]
  have hrange : ((ts.lInt - jan1970).toNat : ℝ) + (ts.lFra.toNat : ℝ) / (2 ^ 32 : ℕ) < 2 ^ 32 := by
    have hle := (Nat.cast_le (α := ℝ)).mpr hlt'
    push_cast at hle hfrac1 ⊢
    linarith
  rw [utcldToNtptime_eq (add_nonneg (Nat.cast_nonneg _) hfrac0) hrange, hfloor, hfract, hround,
    UInt32.ofNat_toNat, UInt32.ofNat_toNat, UInt32.sub_add_cancel]

end

/-- A time of the era comes back from the wire within half a unit exactly if its fraction is not
rounded up to a whole second. All timestamps of the era come back to the wire. -/
theorem ntptime_roundTrip (big : Bool) :
    (∀ t : ℝ, 0 ≤ t → t < 2 ^ 32 - 2208988800 →
      (|ntptimeToUtcld big ((utcldToNtptime t).hton big) - t| ≤ 1 / 2 ^ 33 ↔
        Int.fract t < 1 - 1 / 2 ^ 33)) ∧
    ∀ wire : LFp, jan1970 ≤ htonl big wire.lInt →
      (utcldToNtptime (ntptimeToUtcld big wire : ℝ)).hton big = wire := by
  refine ⟨fun t h0 h => wire_error_le_iff big h0 (by linarith), fun wire h => ?_⟩
  have hback := @utcldToNtptime_hton big (wire.hton big) h
  rw [hton_hton] at hback
  rw [hback, hton_hton]

theorem ntptime_roundTrip_half :
    |ntptimeToUtcld false ((utcldToNtptime (1 / 2 : ℝ)).hton false) - 1 / 2| ≤ (1 / 2 ^ 33 : ℝ) :=
  ((ntptime_roundTrip false).1 (1 / 2) (by norm_num) (by norm_num)).mpr
    (by rw [Int.fract_eq_self.mpr ⟨by norm_num, by norm_num⟩]; norm_num)

/-- A quarter of a unit before a second, a time loses that second. -/
theorem not_ntptime_roundTrip : ¬ ∀ (big : Bool) (t : ℝ), 0 ≤ t → t < 2 ^ 32 - 2208988800 →
    |ntptimeToUtcld big ((utcldToNtptime t).hton big) - t| ≤ 1 / 2 ^ 33 := by
  intro h
  have hle := h false (1 - 1 / 2 ^ 34) (by norm_num) (by norm_num)
  rw [wire_error_le_iff false (by norm_num) (by norm_num),
    Int.fract_eq_self.mpr ⟨by norm_num, by norm_num⟩] at hle
  norm_num at hle

/-! ## Times of the system -/

/-- The microseconds that are left differ by whole seconds, and no less than one. -/
def Uncarried (tv1 tv2 : Timeval) : Prop :=
  tv1.tvUsec - tv2.tvUsec = 1000000 ∨ tv1.tvUsec < tv2.tvUsec ∧ 1000000 ∣ tv2.tvUsec - tv1.tvUsec

section

variable {t : ℝ}

theorem utcldToTimeval_eq (h0 : 0 ≤ t) (h : t < 2 ^ 32) :
    utcldToTimeval t = ⟨⌊t⌋₊, ⌊((1000000 : ℕ) : ℝ) * Int.fract t + 1 / 2⌋₊⟩ := by
  have hfrac : (Arith.ofNat 1000000 : ℝ) * (t - Arith.ofNat (toUint32 t).toNat) + 0.5 =
      ((1000000 : ℕ) : ℝ) * Int.fract t + 1 / 2 := by
    rw [← sub_toUint32 h0 h]
    show ((1000000 : ℕ) : ℝ) * (t - ((toUint32 t).toNat : ℝ)) + 0.5 = _
    norm_num
  have hround : ⌊((1000000 : ℕ) : ℝ) * Int.fract t + 1 / 2⌋₊ < 2 ^ 32 :=
    (round_le (Int.fract_lt_one t)).trans_lt (by norm_num)
  unfold utcldToTimeval
  simp only [hfrac]
  rw [toNat_toUint32 hround, toNat_toUint32 (floor_lt_of_lt h0 h)]

theorem timeval_iff (h0 : 0 ≤ t) :
    (utcldToTimeval t).Normal ∧ |(utcldToTimeval t).secs - t| ≤ 1 / 2000000 ↔
      t < 2 ^ 32 ∧ Int.fract t < 1 - 1 / 2000000 := by
  by_cases h : t < 2 ^ 32
  · have hf := Int.fract_nonneg t
    have hround := round_lt_iff (n := 1000000) hf (by norm_num)
    rw [show (1 : ℝ) - 1 / (2 * (1000000 : ℕ)) = 1 - 1 / 2000000 by norm_num] at hround
    have hsecs : (utcldToTimeval t).secs - t =
        (⌊((1000000 : ℕ) : ℝ) * Int.fract t + 1 / 2⌋₊ : ℝ) / (1000000 : ℕ) - Int.fract t := by
      rw [utcldToTimeval_eq h0 h, Timeval.secs, Int.fract, ← natCast_floor_eq_intCast_floor h0]
      push_cast
      ring
    have hnormal : (utcldToTimeval t).Normal ↔
        ⌊((1000000 : ℕ) : ℝ) * Int.fract t + 1 / 2⌋₊ < 1000000 := by
      rw [utcldToTimeval_eq h0 h, Timeval.Normal, and_iff_right (Int.natCast_nonneg _)]
      dsimp only
      exact_mod_cast Iff.rfl
    rw [hnormal, hsecs, hround]
    constructor
    · exact fun hlt => ⟨h, hlt.1⟩
    · rintro ⟨-, hlt⟩
      refine ⟨hlt, ?_⟩
      calc _ ≤ 1 / (2 * ((1000000 : ℕ) : ℝ)) := abs_round_sub_le hf (by norm_num)
        _ = 1 / 2000000 := by norm_num
  · -- the seconds do not fit: a normal `timeval` stays below them
    refine iff_of_false (fun ⟨⟨_, hlt⟩, hle⟩ => ?_) fun hlt => h hlt.1
    have hsec : ((utcldToTimeval t).tvSec : ℝ) ≤ 2 ^ 32 - 1 := toNat_toUint32_lt t
    have husec : ((utcldToTimeval t).tvUsec : ℝ) + 1 ≤ 1000000 := by exact_mod_cast hlt
    rw [abs_le, Timeval.secs] at hle
    have := not_lt.mp h
    linarith

end

/-- The difference is exact, and normal unless whole seconds are left in its microseconds. -/
theorem subtractTv_spec (tv1 tv2 : Timeval) :
    (subtractTv tv1 tv2).usecs = tv1.usecs - tv2.usecs ∧
      ((subtractTv tv1 tv2).Normal ↔ ¬ Uncarried tv1 tv2) := by
  obtain ⟨s1, u1⟩ := tv1
  obtain ⟨s2, u2⟩ := tv2
  unfold subtractTv Timeval.usecs Timeval.Normal Uncarried
  by_cases hborrow : u1 < u2
  · -- at most a second is left after the borrowing
    simp only [if_pos hborrow, Int.tdiv_eq_ediv_of_nonneg (show 0 ≤ u2 - u1 by omega)]
    rw [if_neg (by omega)]
    dsimp only
    omega
  · simp only [if_neg hborrow, Int.tdiv_eq_ediv_of_nonneg (show 0 ≤ u1 - u2 by omega)]
    split <;> dsimp only <;> omega

/-- A time is written as a normal `timeval` within half a microsecond exactly if it is less than
`2 ^ 32` seconds and its fraction is not rounded up to a whole second. Differences are exact, and
normal unless whole seconds are left in their microseconds. -/
theorem timeval_correct (t : ℝ) (h0 : 0 ≤ t) (_ : t < 2 ^ 63) (tv1 tv2 : Timeval) :
    ((utcldToTimeval t).Normal ∧ |(utcldToTimeval t).secs - t| ≤ 1 / 2000000 ↔
      t < 2 ^ 32 ∧ Int.fract t < 1 - 1 / 2000000) ∧
    (subtractTv tv1 tv2).usecs = tv1.usecs - tv2.usecs ∧
    ((subtractTv tv1 tv2).Normal ↔ ¬ Uncarried tv1 tv2) :=
  ⟨timeval_iff h0, subtractTv_spec tv1 tv2⟩

theorem timeval_correct_half : (utcldToTimeval (1 / 2 : ℝ)).Normal ∧
    |(utcldToTimeval (1 / 2 : ℝ)).secs - 1 / 2| ≤ 1 / 2000000 :=
  (timeval_correct (1 / 2) (by norm_num) (by norm_num) ⟨0, 0⟩ ⟨0, 0⟩).1.mpr
    ⟨by norm_num, by rw [Int.fract_eq_self.mpr ⟨by norm_num, by norm_num⟩]; norm_num⟩

/-- The difference of normal `timeval`s, as of those above, is normal. -/
theorem subtractTv_normal {tv1 tv2 : Timeval} (h1 : tv1.Normal) (h2 : tv2.Normal) :
    (subtractTv tv1 tv2).Normal := by
  rw [(subtractTv_spec tv1 tv2).2]
  unfold Timeval.Normal at h1 h2
  rintro (heq | ⟨hlt, hdvd⟩)
  · omega
  · omega

/-- A tenth of a microsecond before a second, the microseconds are a whole second; the difference to
the start of that second is left as it is. -/
theorem not_timeval_correct : ¬ ∀ a b : ℝ, 0 ≤ a → a < 2 ^ 63 → 0 ≤ b → b < 2 ^ 63 →
    ((utcldToTimeval a).Normal ∧ |(utcldToTimeval a).secs - a| ≤ 1 / 2000000) ∧
      (subtractTv (utcldToTimeval a) (utcldToTimeval b)).Normal := by
  intro h
  have hlt := (h (9999999 / 10000000) 0 (by norm_num) (by norm_num) le_rfl (by norm_num)).1
  rw [timeval_iff (by norm_num), Int.fract_eq_self.mpr ⟨by norm_num, by norm_num⟩] at hlt
  norm_num at hlt

end RADclock.Ntp
