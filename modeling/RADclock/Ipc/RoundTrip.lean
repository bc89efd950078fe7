import RADclock.Ipc.Backends

/-!
# The kernel's format and back (`radapi-base.c`)

Clock data is put into the format of the kernel and read back from it. The period comes back in two
places: the local period is not in the format, and what is read back has the period itself in its
place. The leap seconds are kept in eight bits.

- `roundTrip`: the data that comes back.
- `roundTrip_agrees`: what is kept, and how far the clock read from it is off.
-/

namespace RADclock.Backends

open Lib Kernel

/-- `fill_ffclock_data`, then `fill_radclock_data`. -/
def roundTrip (d : RadclockData) : RadclockData := fillRadclockData (fillFfclockData d)

/-- The absolute time at the last update. -/
def timeAtUpdate (d : RadclockData) : ℚ := d.lastChanged.toNat * d.phat + d.ca

/-- The data of an update, its status and its leap seconds are kept, and the clock is read alike up
to one unit of the format for each count since the update and two more. -/
structure ComesBack (d : RadclockData) (useplocal : Bool) : Prop where
  lastChanged : (roundTrip d).lastChanged = d.lastChanged
  status : (roundTrip d).status = d.status
  total : (roundTrip d).leapsecTotal = d.leapsecTotal
  next : (roundTrip d).leapsecNext = d.leapsecNext
  expected : (roundTrip d).leapsecExpected = d.leapsecExpected
  read : ∀ vcount : BitVec 64,
    |readRADabsUTC (roundTrip d) vcount useplocal - readRADabsUTC d vcount useplocal| ≤
      (|(vcount.toNat : ℚ) - d.lastChanged.toNat| + 2) / 2 ^ 64

/-- Without a local period of its own, data is read alike in both modes. -/
theorem readRADabsUTC_local {d : RadclockData} (h : d.phatLocal = d.phat) (vcount : BitVec 64)
    (useplocal : Bool) : readRADabsUTC d vcount useplocal = readRADabsUTC d vcount false := by
  simp [readRADabsUTC, h]

/-- Data whose numbers fit into the format comes back, if it is read without the local period or has
none of its own. -/
theorem roundTrip_agrees (d : RadclockData) (useplocal : Bool) (hphat : 0 < d.phat ∧ d.phat < 1)
    (htime : 0 ≤ timeAtUpdate d ∧ timeAtUpdate d < 2 ^ 63) (htotal : |d.leapsecTotal| ≤ 127)
    (hnext : -128 ≤ d.leapsecNext ∧ d.leapsecNext ≤ 127)
    (hlocal : useplocal = true → d.phatLocal = d.phat) : ComesBack d useplocal := by
  have htotal' := abs_le.mp htotal
  have h : Published d :=
    ⟨htime.1, htime.2, hphat.1.le, hphat.2, ⟨by omega, htotal'.2⟩, hnext⟩
  refine ⟨rfl, rfl, leapsec_roundtrip h.total, leapsec_roundtrip h.next, rfl, fun vcount => ?_⟩
  have hclose := abstime_close h (ffclockInit .fb) vcount
  have hread : readRADabsUTC d vcount useplocal = readRADabsUTC d vcount false := by
    cases useplocal with
    | false => rfl
    | true => exact readRADabsUTC_local (hlocal rfl) vcount true
  rw [abs_sub_comm, hread, readRADabsUTC_local (d := roundTrip d) rfl]
  refine hclose.le.trans ?_
  rw [div_le_div_iff_of_pos_right (by norm_num)]
  linarith

/-- A counter of 1 GHz with a leap second ahead. -/
theorem roundTrip_agrees_gigahertz :
    ComesBack { gigahertzClock with leapsecExpected := 1008000000000, leapsecNext := 1 } true :=
  roundTrip_agrees _ true (by decide +kernel) (by decide +kernel) (by decide) (by decide)
    fun _ => rfl

/-- A local period of its own, leap seconds beyond eight bits, a time beyond 63 bits: none of them
comes back. -/
theorem not_roundTrip_agrees :
    ¬ ComesBack { gigahertzClock with phatLocal := 1001 / 10 ^ 12 } true ∧
    ¬ ComesBack { gigahertzClock with leapsecNext := 200 } false ∧
    ¬ ComesBack { gigahertzClock with ca := 2 ^ 63 } false := by
  refine ⟨fun h => ?_, fun h => ?_, fun h => ?_⟩
  · exact absurd (h.read 1001000000000) (by decide +kernel)
  · exact absurd h.next (by decide)
  · exact absurd (h.read 1000000000000) (by decide +kernel)

end RADclock.Backends
