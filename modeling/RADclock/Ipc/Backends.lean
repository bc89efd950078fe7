import Mathlib.Data.Rat.Floor
import Mathlib.Tactic.Linarith
import Mathlib.Tactic.NormNum
import RADclock.Kernel.Ffclock

/-!
# Two ways to read the clock (`radapi-time.c`, `fill_ffclock_data`, `fill_radclock_data`)

A client reads the clock data from the shared memory segment, or from the kernel, where the daemon
has put it in the kernel's own format: the time of the last update and the period as multiples of
`2 ^ -64` seconds. Numbers are exact here, so that what is lost is what the format loses. The
seconds to the next update are in it but not used on the way back: data from the kernel says `0` for
the time of the next update, and its quality code is that of data which is past its time.

- `RadclockData`, `fillFfclockData`, `fillRadclockData`: the two formats.
- `readRADabsUTC`, `raddataQuality`: what is read off the data.
- `Published`: data whose numbers fit into the kernel's format.
- `backends_agree`: how far the two ways agree.
-/

namespace RADclock.Backends

open Lib Kernel

/-- `struct radclock_data`. -/
structure RadclockData where
  phat : ℚ
  phatErr : ℚ
  phatLocal : ℚ
  phatLocalErr : ℚ
  ca : ℚ
  caErr : ℚ
  status : BitVec 32
  lastChanged : BitVec 64
  nextExpected : BitVec 64
  leapsecExpected : BitVec 64
  leapsecTotal : Int
  leapsecNext : Int
deriving DecidableEq

/-- Conversion of a number to an integer type: towards zero. -/
def truncate (x : ℚ) : Int := if 0 ≤ x then ⌊x⌋ else ⌈x⌉

/-! ## The kernel's format -/

/-- `ld_to_bintime`. -/
def ldToBintime (time : ℚ) : Bintime :=
  let sec := truncate time
  ⟨BitVec.ofInt 64 sec, BitVec.ofInt 64 (truncate ((time - sec) * 2 ^ 64))⟩

/-- `bintime_to_ld`. -/
def bintimeToLd (bt : Bintime) : ℚ := bt.sec.toInt + bt.frac.toNat / 2 ^ 64

/-- `fill_ffclock_data`, with `PLOCAL_ACTIVE` off. -/
def fillFfclockData (d : RadclockData) : FfclockData where
  updateTime := ldToBintime (d.lastChanged.toNat * d.phat + d.ca)
  updateFfcount := d.lastChanged
  leapsecExpected := d.leapsecExpected
  period := BitVec.ofInt 64 (truncate (d.phat * 2 ^ 64))
  errbAbs := BitVec.ofInt 32 (truncate (d.caErr * 10 ^ 9))
  errbRate := BitVec.ofInt 32 (truncate (d.phatLocalErr * 10 ^ 12))
  status := d.status
  secsToNextupdate := BitVec.ofInt 16
    (truncate ((d.nextExpected - d.lastChanged).toNat * d.phat + 1 / 2))
  leapsecTotal := BitVec.ofInt 8 d.leapsecTotal
  leapsecNext := BitVec.ofInt 8 d.leapsecNext

/-- `fill_radclock_data`. -/
def fillRadclockData (cdat : FfclockData) : RadclockData :=
  let period : ℚ := cdat.period.toNat / 2 ^ 64
  { phat := period
    phatErr := cdat.errbRate.toNat / 10 ^ 12
    phatLocal := period
    phatLocalErr := cdat.errbRate.toNat / 10 ^ 12
    ca := bintimeToLd cdat.updateTime - period * cdat.updateFfcount.toNat
    caErr := cdat.errbAbs.toNat / 10 ^ 9
    status := cdat.status
    lastChanged := cdat.updateFfcount
    nextExpected := 0
    leapsecExpected := cdat.leapsecExpected
    leapsecTotal := cdat.leapsecTotal.toInt
    leapsecNext := cdat.leapsecNext.toInt }

/-- What `get_kernel_ffclock` returns after `set_kernel_ffclock`. -/
def kernelData (s : FfState) (d : RadclockData) : RadclockData :=
  fillRadclockData (ffclockSetdata (fillFfclockData d) s).ffclockData

/-! ## Reading the clock -/

def OUT_SKM : ℚ := 1024

/-- `raddata_quality`. -/
def raddataQuality (now last valid : BitVec 64) (phat : ℚ) : Nat :=
  if now < last then 3
  else if valid < now then
    if OUT_SKM < phat * (now - valid).toNat then 3 else 2
  else 0

/-- `read_RADabs_UTC`, on data that does not change. -/
def readRADabsUTC (d : RadclockData) (vcount : BitVec 64) (useplocal : Bool) : ℚ :=
  let time := vcount.toNat * d.phat + d.ca
  let time := if useplocal ∧ d.phat ≠ d.phatLocal then
      time + (vcount.toNat - d.lastChanged.toNat) * (d.phatLocal - d.phat)
    else time
  let time := time - d.leapsecTotal
  if d.leapsecExpected ≠ 0 ∧ d.leapsecExpected < vcount then time - d.leapsecNext else time

/-- `ffcounter_to_abstime_sms`, without the local period: the time and the quality code. -/
def ffcounterToAbstimeSms (d : RadclockData) (vcount : BitVec 64) : ℚ × Nat :=
  (readRADabsUTC d vcount false, raddataQuality vcount d.lastChanged d.nextExpected d.phat)

/-- `ffcounter_to_abstime_kernel`. -/
def ffcounterToAbstimeKernel (s : FfState) (d : RadclockData) (vcount : BitVec 64) : ℚ × Nat :=
  let radData := kernelData s d
  (readRADabsUTC radData vcount false,
    raddataQuality vcount radData.lastChanged radData.nextExpected radData.phat)

/-- `ffcounter_to_difftime_sms`, without the local period; the difference is that of unsigned
numbers. -/
def ffcounterToDifftimeSms (d : RadclockData) (fromVcount tillVcount : BitVec 64) : ℚ :=
  (tillVcount - fromVcount).toNat * d.phat

/-- `ffcounter_to_difftime_kernel`. -/
def ffcounterToDifftimeKernel (s : FfState) (d : RadclockData) (fromVcount tillVcount : BitVec 64) :
    ℚ :=
  ((tillVcount.toNat : ℚ) - fromVcount.toNat) * (kernelData s d).phatLocal

/-! ## What the format keeps -/

/-- The numbers fit into the kernel's format: a time of update that is not negative, a period below
one second, and leap seconds in eight bits. -/
structure Published (d : RadclockData) : Prop where
  time_nonneg : 0 ≤ d.lastChanged.toNat * d.phat + d.ca
  time_lt : d.lastChanged.toNat * d.phat + d.ca < 2 ^ 63
  phat_nonneg : 0 ≤ d.phat
  phat_lt : d.phat < 1
  total : -128 ≤ d.leapsecTotal ∧ d.leapsecTotal ≤ 127
  next : -128 ≤ d.leapsecNext ∧ d.leapsecNext ≤ 127

instance (d : RadclockData) : Decidable (Published d) :=
  decidable_of_iff (0 ≤ d.lastChanged.toNat * d.phat + d.ca ∧
      d.lastChanged.toNat * d.phat + d.ca < 2 ^ 63 ∧ 0 ≤ d.phat ∧ d.phat < 1 ∧
      (-128 ≤ d.leapsecTotal ∧ d.leapsecTotal ≤ 127) ∧ -128 ≤ d.leapsecNext ∧ d.leapsecNext ≤ 127)
    ⟨fun ⟨h1, h2, h3, h4, h5, h6⟩ => ⟨h1, h2, h3, h4, h5, h6⟩,
      fun h => ⟨h.time_nonneg, h.time_lt, h.phat_nonneg, h.phat_lt, h.total, h.next⟩⟩

theorem truncate_of_nonneg {x : ℚ} (h : 0 ≤ x) : truncate x = ⌊x⌋ := if_pos h

/-- A fraction of a second, cut to a multiple of `2 ^ -64` seconds. -/
theorem toNat_fraction {x : ℚ} (hnonneg : 0 ≤ x) (hlt : x < 1) :
    ((BitVec.ofInt 64 (truncate (x * 2 ^ 64))).toNat : ℚ) ≤ x * 2 ^ 64 ∧
      x * 2 ^ 64 < (BitVec.ofInt 64 (truncate (x * 2 ^ 64))).toNat + 1 := by
  have hscaled : 0 ≤ x * 2 ^ 64 := mul_nonneg hnonneg (by norm_num)
  have hfloor : 0 ≤ ⌊x * 2 ^ 64⌋ := Int.floor_nonneg.mpr hscaled
  have hlt' : ⌊x * 2 ^ 64⌋ < 2 ^ 64 := by
    rw [Int.floor_lt]
    push_cast
    linarith
  have hnat : ((BitVec.ofInt 64 (truncate (x * 2 ^ 64))).toNat : Int) = ⌊x * 2 ^ 64⌋ := by
    rw [truncate_of_nonneg hscaled, BitVec.toNat_ofInt]
    omega
  have hcast : ((BitVec.ofInt 64 (truncate (x * 2 ^ 64))).toNat : ℚ) = (⌊x * 2 ^ 64⌋ : ℚ) := by
    exact_mod_cast hnat
  rw [hcast]
  exact ⟨Int.floor_le _, Int.lt_floor_add_one _⟩

/-- A time that is not negative comes back with less than `2 ^ -64` seconds lost. -/
theorem bintime_roundtrip {time : ℚ} (hnonneg : 0 ≤ time) (hlt : time < 2 ^ 63) :
    bintimeToLd (ldToBintime time) ≤ time ∧
      time < bintimeToLd (ldToBintime time) + 1 / 2 ^ 64 := by
  -- the seconds survive unchanged; all that is lost is below the last bit of the fraction
  have hsec : (BitVec.ofInt 64 (truncate time)).toInt = ⌊time⌋ := by
    have hfloor : 0 ≤ ⌊time⌋ := Int.floor_nonneg.mpr hnonneg
    have hlt' : ⌊time⌋ < 2 ^ 63 := by
      rw [Int.floor_lt]
      exact_mod_cast hlt
    rw [truncate_of_nonneg hnonneg, BitVec.toInt_ofInt, Int.bmod_eq_of_le (by omega) (by omega)]
  obtain ⟨hlow, hhigh⟩ := toNat_fraction (sub_nonneg.mpr (Int.floor_le time))
    (sub_lt_iff_lt_add'.mpr (Int.lt_floor_add_one time))
  rw [ldToBintime, bintimeToLd]
  simp only [hsec]
  rw [truncate_of_nonneg hnonneg]
  constructor
  · have hdiv : ((BitVec.ofInt 64 (truncate ((time - ⌊time⌋) * 2 ^ 64))).toNat : ℚ) / 2 ^ 64 ≤
        time - ⌊time⌋ := by
      rw [div_le_iff₀ (by norm_num)]
      exact hlow
    linarith
  · have hdiv : time - ⌊time⌋ <
        ((BitVec.ofInt 64 (truncate ((time - ⌊time⌋) * 2 ^ 64))).toNat + 1 : ℚ) / 2 ^ 64 := by
      rw [lt_div_iff₀ (by norm_num)]
      exact hhigh
    rw [add_div] at hdiv
    linarith

theorem leapsec_roundtrip {n : Int} (h : -128 ≤ n ∧ n ≤ 127) : (BitVec.ofInt 8 n).toInt = n := by
  rw [BitVec.toInt_ofInt, Int.bmod_eq_of_le (by omega) (by omega)]

/-- The period comes back with less than `2 ^ -64` seconds lost. -/
theorem kernelData_phat {d : RadclockData} (h : Published d) (s : FfState) :
    (kernelData s d).phat ≤ d.phat ∧ d.phat < (kernelData s d).phat + 1 / 2 ^ 64 := by
  obtain ⟨hlow, hhigh⟩ := toNat_fraction h.phat_nonneg h.phat_lt
  show ((BitVec.ofInt 64 (truncate (d.phat * 2 ^ 64))).toNat / 2 ^ 64 : ℚ) ≤ d.phat ∧
    d.phat < (BitVec.ofInt 64 (truncate (d.phat * 2 ^ 64))).toNat / 2 ^ 64 + 1 / 2 ^ 64
  rw [← add_div, div_le_iff₀ (by norm_num), lt_div_iff₀ (by norm_num)]
  exact ⟨hlow, hhigh⟩

/-- Leap seconds are subtracted alike. -/
theorem readRADabsUTC_sub {d e : RadclockData} (vcount : BitVec 64)
    (htotal : e.leapsecTotal = d.leapsecTotal) (hnext : e.leapsecNext = d.leapsecNext)
    (hexpected : e.leapsecExpected = d.leapsecExpected) :
    readRADabsUTC d vcount false - readRADabsUTC e vcount false =
      vcount.toNat * d.phat + d.ca - (vcount.toNat * e.phat + e.ca) := by
  simp only [readRADabsUTC, Bool.false_eq_true, false_and, if_false, htotal, hnext, hexpected]
  split <;> ring

/-- The time differs by what is lost of the time of the update, and of the period since then. -/
theorem abstime_sub {d : RadclockData} (h : Published d) (s : FfState) (vcount : BitVec 64) :
    readRADabsUTC d vcount false - readRADabsUTC (kernelData s d) vcount false =
      (d.lastChanged.toNat * d.phat + d.ca -
        bintimeToLd (ldToBintime (d.lastChanged.toNat * d.phat + d.ca))) +
      ((vcount.toNat : ℚ) - d.lastChanged.toNat) * (d.phat - (kernelData s d).phat) := by
  have htotal : (kernelData s d).leapsecTotal = d.leapsecTotal := leapsec_roundtrip h.total
  have hnext : (kernelData s d).leapsecNext = d.leapsecNext := leapsec_roundtrip h.next
  have hexpected : (kernelData s d).leapsecExpected = d.leapsecExpected := rfl
  rw [readRADabsUTC_sub vcount htotal hnext hexpected]
  have hca : (kernelData s d).ca =
      bintimeToLd (ldToBintime (d.lastChanged.toNat * d.phat + d.ca)) -
        (kernelData s d).phat * d.lastChanged.toNat := rfl
  rw [hca]
  ring

/-- A distance times less than one unit. -/
theorem abs_mul_lt_unit {x y : ℚ} (hnonneg : 0 ≤ y) (hlt : y < 1 / 2 ^ 64) :
    |x * y| ≤ |x| / 2 ^ 64 := by
  rw [abs_mul, abs_of_nonneg hnonneg, div_eq_mul_one_div]
  exact mul_le_mul_of_nonneg_left hlt.le (abs_nonneg x)

/-- Less than one unit is lost of the time of the update, and one for each count since then. -/
theorem abstime_close {d : RadclockData} (h : Published d) (s : FfState) (vcount : BitVec 64) :
    |readRADabsUTC d vcount false - readRADabsUTC (kernelData s d) vcount false| <
      (|(vcount.toNat : ℚ) - d.lastChanged.toNat| + 1) / 2 ^ 64 := by
  obtain ⟨hplow, hphigh⟩ := kernelData_phat h s
  obtain ⟨htlow, hthigh⟩ := bintime_roundtrip h.time_nonneg h.time_lt
  have htime : |d.lastChanged.toNat * d.phat + d.ca -
      bintimeToLd (ldToBintime (d.lastChanged.toNat * d.phat + d.ca))| < 1 / 2 ^ 64 := by
    rw [abs_of_nonneg (sub_nonneg.mpr htlow)]
    linarith
  have hrate := abs_mul_lt_unit (x := (vcount.toNat : ℚ) - d.lastChanged.toNat)
    (sub_nonneg.mpr hplow) (by linarith)
  rw [abstime_sub h, add_div]
  refine (abs_add_le _ _).trans_lt ?_
  linarith

/-- Both ways read the same clock, up to what the kernel's format loses: less than `2 ^ -64`
seconds of the time of the update, and of the period. Their quality codes agree on counter values
before the update; from then on data from the kernel is past its time. Differences agree for
intervals that do not run backwards. -/
theorem backends_agree (s : FfState) (d : RadclockData) (h : Published d) :
    (∀ vcount : BitVec 64,
      |(ffcounterToAbstimeSms d vcount).1 - (ffcounterToAbstimeKernel s d vcount).1| <
        (|(vcount.toNat : ℚ) - d.lastChanged.toNat| + 1) / 2 ^ 64 ∧
      (ffcounterToAbstimeKernel s d vcount).2 =
        raddataQuality vcount d.lastChanged 0 (kernelData s d).phat ∧
      (vcount < d.lastChanged →
        (ffcounterToAbstimeSms d vcount).2 = (ffcounterToAbstimeKernel s d vcount).2)) ∧
    ∀ fromVcount tillVcount : BitVec 64, fromVcount ≤ tillVcount →
      |ffcounterToDifftimeSms d fromVcount tillVcount -
          ffcounterToDifftimeKernel s d fromVcount tillVcount| ≤
        ((tillVcount.toNat : ℚ) - fromVcount.toNat) / 2 ^ 64 := by
  obtain ⟨hplow, hphigh⟩ := kernelData_phat h s
  -- of the period at most one unit of 2^-64 is lost
  have hlost : 0 ≤ d.phat - (kernelData s d).phat := sub_nonneg.mpr hplow
  have hlost' : d.phat - (kernelData s d).phat < 1 / 2 ^ 64 := by linarith
  constructor
  · intro vcount
    refine ⟨?_, rfl, ?_⟩
    · exact abstime_close h s vcount
    · intro hbefore
      have hthree : ∀ valid phat, raddataQuality vcount d.lastChanged valid phat = 3 :=
        fun _ _ => if_pos hbefore
      exact (hthree _ _).trans (hthree _ _).symm
  · -- an interval is a multiple of the period, so it loses one unit per count
    intro fromVcount tillVcount hle
    have hnat : fromVcount.toNat ≤ tillVcount.toNat := hle
    have hsub : ((tillVcount - fromVcount).toNat : ℚ) =
        (tillVcount.toNat : ℚ) - fromVcount.toNat := by
      rw [BitVec.toNat_sub_of_le hle, Nat.cast_sub hnat]
    have hlocal : (kernelData s d).phatLocal = (kernelData s d).phat := rfl
    have hnonneg : (0 : ℚ) ≤ (tillVcount.toNat : ℚ) - fromVcount.toNat := by
      rw [sub_nonneg]
      exact_mod_cast hnat
    rw [ffcounterToDifftimeSms, ffcounterToDifftimeKernel, hsub, hlocal, ← mul_sub]
    refine (abs_mul_lt_unit hlost hlost').trans ?_
    rw [abs_of_nonneg hnonneg]

/-- A counter of 1 GHz, 1000 s after its start, to be updated every 16 s. -/
def gigahertzClock : RadclockData :=
  { phat := 1 / 10 ^ 9, phatErr := 0, phatLocal := 1 / 10 ^ 9, phatLocalErr := 0, ca := 1700000000
    caErr := 0, status := 0, lastChanged := 1000000000000, nextExpected := 1016000000000
    leapsecExpected := 0, leapsecTotal := 0, leapsecNext := 0 }

theorem backends_agree_gigahertz :
    Published gigahertzClock ∧ ∀ fromVcount tillVcount : BitVec 64, fromVcount ≤ tillVcount →
      |ffcounterToDifftimeSms gigahertzClock fromVcount tillVcount -
          ffcounterToDifftimeKernel (ffclockInit .fb) gigahertzClock fromVcount tillVcount| ≤
        ((tillVcount.toNat : ℚ) - fromVcount.toNat) / 2 ^ 64 :=
  ⟨by decide +kernel, (backends_agree (ffclockInit .fb) gigahertzClock (by decide +kernel)).2⟩

/-- How far the two ways of reading the clock are apart. -/
def apart (d : RadclockData) (vcount : BitVec 64) : ℚ :=
  |(ffcounterToAbstimeSms d vcount).1 - (ffcounterToAbstimeKernel (ffclockInit .fb) d vcount).1|

/-- One second after the update the segment says that the data is good, the kernel that it is past
its time; and over a second backwards the segment's difference wraps. A time of update before the
epoch or beyond 63 bits, a period below zero or of a second, and leap seconds beyond eight bits each
put the two a quarter of a second apart or more. -/
theorem not_backends_equal_gigahertz :
    ((ffcounterToAbstimeSms gigahertzClock 1001000000000).2 ≠
        (ffcounterToAbstimeKernel (ffclockInit .fb) gigahertzClock 1001000000000).2 ∧
      ¬ |ffcounterToDifftimeSms gigahertzClock 1001000000000 1000000000000 -
        ffcounterToDifftimeKernel (ffclockInit .fb) gigahertzClock 1001000000000 1000000000000| <
          1) ∧
    1 / 4 ≤ apart { gigahertzClock with ca := -2000 - 1 / 2 } 1000000000000 ∧
    1 / 4 ≤ apart { gigahertzClock with ca := 2 ^ 63 } 1000000000000 ∧
    1 / 4 ≤ apart { gigahertzClock with phat := -1 / 10 ^ 9 } 1001000000000 ∧
    1 / 4 ≤ apart { gigahertzClock with phat := 1 } 1001000000000 ∧
    1 / 4 ≤ apart { gigahertzClock with leapsecTotal := 200 } 1001000000000 ∧
    1 / 4 ≤ apart { gigahertzClock with leapsecExpected := 1000500000000, leapsecNext := 200 }
      1001000000000 := by
  decide +kernel

end RADclock.Backends
