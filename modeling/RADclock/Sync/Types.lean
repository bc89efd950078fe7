import RADclock.Lib.Exec
import RADclock.Lib.Arith

/-!
# Stamps, and the trace of the synchronization algorithm

The vocabulary shared by the models of `sync_history.c` and `sync_bidir.c`: the
bidirectional stamp of `sync_algo.h`, the names of the nine per-stamp histories
of `struct bidir_algostate`, and the events the algorithm emits.

Everything `RADalgo_bidir` does to its state is returned as a value; what it *looks
at* is emitted as an event. A lookup records the range the history holds at that
moment, a subtraction of two counter readings records its operands, and the two
branches of `manage_historywin` leave a mark.
-/

namespace RADclock

open Lib

/-- `vcounter_t`: a raw 64-bit counter reading. -/
abbrev VCounter := UInt64

/-- `struct bidir_stamp`: raw counter values at the client (`Ta`, `Tf`), server
times in seconds (`Tb`, `Te`). -/
structure BidirStamp (D : Type) where
  Ta : VCounter
  Tb : D
  Te : D
  Tf : VCounter

/-- A stamp of zero bytes, as `calloc` and `memset` leave it. -/
instance {D : Type} [Zero D] : Zero (BidirStamp D) := ⟨⟨0, 0, 0, 0⟩⟩

/-- The raw round-trip time of a stamp, in counter units. -/
def BidirStamp.RTT {D : Type} (st : BidirStamp D) : VCounter := st.Tf - st.Ta

/-- A past stamp kept for the estimation of the oscillator period: its index, the stamp, and its
point error with the RTT baseline that was taken over. -/
structure PastStamp (D : Type) where
  i : Nat
  stamp : BidirStamp D
  RTThat : VCounter
  perr : D

/-- The nine time series histories of `struct bidir_algostate`. -/
inductive HistName where
  | stamp | Df | Db | Dfhat | Dbhat | Asymhat | RTT | RTThat | thnaive
deriving DecidableEq, Repr

/-- What a run of the algorithm leaves behind besides its state. -/
inductive Event (D : Type) where
  /-- `history_find` asked for index `i` of a history holding `[oldest, newest]`. -/
  | find (name : HistName) (i oldest : Nat) (newest : Int)
  /-- The unsigned difference `later - earlier` of counter readings of two stamps. -/
  | diff (later earlier : VCounter)
  /-- A point error `RTT - RTThat` of the full algorithms. -/
  | pointErr (RTT RTThat : VCounter)
  /-- The half-window initialisation of `manage_historywin`. -/
  | halfWindow (si : Nat)
  /-- A slide of the history window, with what is `pstamp` after it. -/
  | slide (si : Nat) (pstamp : PastStamp D)

/-- The effects of the algorithm: events, and a halt on a null dereference or an
endless loop. -/
abbrev Algo (D : Type) := Exec (Event D)

variable {D : Type}

/-- A lookup is *held* when the history holds the index it asks for; other events
are none of its business. -/
def Event.Held : Event D → Prop
  | .find _ i oldest newest => oldest ≤ i ∧ (i : Int) ≤ newest
  | _ => True

/-- A counter difference is exact when it equals the signed difference of its
operands; other events are none of its business. -/
def Event.Exact : Event D → Prop
  | .diff later earlier => ((later - earlier).toNat : Int) = later.toNat - earlier.toNat
  | _ => True

/-- A point error is nonnegative when the estimate does not exceed the RTT. -/
def Event.ErrNonneg : Event D → Prop
  | .pointErr RTT RTThat => RTThat ≤ RTT
  | _ => True

/-- Subtract two counter readings, as the source does on `vcounter_t`. -/
def counterDiff (later earlier : VCounter) : Algo D VCounter := do
  Exec.emit (.diff later earlier)
  pure (later - earlier)

/-- An unsigned difference is exact iff it does not wrap. -/
theorem diff_exact_iff {later earlier : VCounter} :
    (Event.diff later earlier : Event D).Exact ↔ earlier ≤ later := by
  show ((later - earlier).toNat : Int) = later.toNat - earlier.toNat ↔ _
  rw [UInt64.le_iff_toNat_le, UInt64.toNat_sub]
  have h1 := later.toNat_lt
  have h2 := earlier.toNat_lt
  omega

variable {P : Event D → Prop} {H : Prop}

theorem counterDiff_sat {later earlier : VCounter} {Q : VCounter → Prop}
    (hp : P (.diff later earlier)) (hq : Q (later - earlier)) :
    Exec.Sat P H (counterDiff later earlier) Q :=
  Exec.Sat.bind (Q := fun _ => True) (Exec.Sat.emit hp True.intro)
    fun _ _ => Exec.Sat.pure hq

end RADclock
