import RADclock.Kernel.Snapshot

/-!
# Packet timestamps (`bpf.c`)

Four fields of one word say how the packets of a descriptor are stamped: by which clock, with which
flags, in which format, and whether the raw counter goes along. A snapshot is taken for each packet
before any descriptor is looked at, and each one makes its timestamp from it later.

- `bpfTValid`: the words that a descriptor accepts.
- `translateClockFlags`, `bpfBintime2ts`, `bpfTap`: the code.
- `StampClock`, `reading`: which clock a word asks for, and what that clock reads.
- `taps_iff`: when every packet carries what its descriptor's clock reads.
-/

namespace RADclock.Kernel

open Lib

/-! ## Time stamping flags (`bpf.h`) -/

def BPF_T_MICROTIME : BitVec 32 := 0x0000
def BPF_T_NANOTIME : BitVec 32 := 0x0001
def BPF_T_BINTIME : BitVec 32 := 0x0002
def BPF_T_NONE : BitVec 32 := 0x0003
def BPF_T_FORMAT_MASK : BitVec 32 := 0x0003
def BPF_T_NOFFC : BitVec 32 := 0x0000
def BPF_T_FFC : BitVec 32 := 0x0010
def BPF_T_FFRAW_MASK : BitVec 32 := 0x0010
def BPF_T_NORMAL : BitVec 32 := 0x0000
def BPF_T_FAST : BitVec 32 := 0x0100
def BPF_T_MONOTONIC : BitVec 32 := 0x0200
def BPF_T_FLAG_MASK : BitVec 32 := 0x0300
def BPF_T_SYSC : BitVec 32 := 0x0000
def BPF_T_FBC : BitVec 32 := 0x1000
def BPF_T_MONOFFC : BitVec 32 := 0x2000
def BPF_T_NATFFC : BitVec 32 := 0x3000
def BPF_T_DIFFFFC : BitVec 32 := 0x4000
def BPF_T_CLOCK_MASK : BitVec 32 := 0x7000

def bpfTFormat (t : BitVec 32) : BitVec 32 := t &&& BPF_T_FORMAT_MASK
def bpfTFfraw (t : BitVec 32) : BitVec 32 := t &&& BPF_T_FFRAW_MASK
def bpfTClock (t : BitVec 32) : BitVec 32 := t &&& BPF_T_CLOCK_MASK

/-- `BPF_T_VALID`, in a kernel with the FFclock. -/
def bpfTValid (t : BitVec 32) : Bool :=
  t &&& ~~~(BPF_T_FORMAT_MASK ||| BPF_T_FFRAW_MASK ||| BPF_T_FLAG_MASK ||| BPF_T_CLOCK_MASK) = 0 ∧
    bpfTClock t ≤ BPF_T_DIFFFFC

/-! ## The code -/

/-- `translate_clock_flags`: the family, and the flags of that family. -/
def translateClockFlags (sysclockActive : Sysclock) (tstype : BitVec 32) : Int × BitVec 32 :=
  let clock := bpfTClock tstype
  if (clock = BPF_T_SYSC ∧ sysclockActive = .fb) ∨ clock = BPF_T_FBC then
    let sysflags := if tstype &&& BPF_T_FAST ≠ 0 then FBCLOCK_FAST else 0
    (SYSCLOCK_FB,
      if tstype &&& BPF_T_MONOTONIC ≠ 0 then sysflags ||| FBCLOCK_UPTIME else sysflags)
  else
    let sysflags := if tstype &&& BPF_T_FAST ≠ 0 then FFCLOCK_FAST else 0
    let sysflags :=
      if tstype &&& BPF_T_MONOTONIC ≠ 0 then sysflags ||| FFCLOCK_UPTIME else sysflags
    let sysflags :=
      if clock = BPF_T_MONOFFC ∨ clock = BPF_T_SYSC then sysflags ||| FFCLOCK_MONO else sysflags
    (SYSCLOCK_FF, if clock = BPF_T_DIFFFFC then sysflags ||| FFCLOCK_DIFF else sysflags)

/-- `struct bpf_ts`. -/
structure BpfTs where
  btSec : BitVec 64
  btFrac : BitVec 64
deriving DecidableEq, Repr

/-- `bpf_bintime2ts`; without a format, `catchpacket` leaves the field as `bzero` has it. -/
def bpfBintime2ts (bt : Bintime) (tstype : BitVec 32) : BpfTs :=
  let format := bpfTFormat tstype
  if format = BPF_T_MICROTIME then
    ⟨.ofInt 64 (bintime2timeval bt).tvSec, .ofInt 64 (bintime2timeval bt).tvUsec⟩
  else if format = BPF_T_NANOTIME then
    ⟨(bintime2timespec bt).tvSec, .ofNat 64 (bintime2timespec bt).tvNsec⟩
  else if format = BPF_T_BINTIME then ⟨bt.sec, bt.frac⟩
  else ⟨0, 0⟩

/-- What the header of a packet says about its time. -/
structure PacketTime where
  bhTstamp : BpfTs
  bhFfcounter : BitVec 64
deriving DecidableEq, Repr

/-- What `catchpacket` makes of a time and a counter value. -/
def packetTime (bt : Bintime) (ffcount : BitVec 64) (tstype : BitVec 32) : PacketTime :=
  { bhTstamp := bpfBintime2ts bt tstype
    bhFfcounter := if bpfTFfraw tstype = BPF_T_FFC then ffcount else 0 }

/-- The time that `bpf_tap` has for a descriptor, from the snapshot that all share; nothing is
returned when `sysclock_snap2bintime` leaves it unset. -/
def tapBintime (sysclockActive : Sysclock) (boottimebin : Bintime) (cs : SysclockSnap)
    (bdTstamp : BitVec 32) : Option Bintime :=
  if bpfTFormat bdTstamp = BPF_T_NONE then some .clear
  else
    let (clockfamily, flags) := translateClockFlags sysclockActive bdTstamp
    sysclockSnap2bintime boottimebin cs clockfamily flags

/-- One descriptor's part of `bpf_tap`. -/
def bpfTap (sysclockActive : Sysclock) (boottimebin : Bintime) (cs : SysclockSnap)
    (bdTstamp : BitVec 32) : Option PacketTime :=
  (tapBintime sysclockActive boottimebin cs bdTstamp).map fun bt =>
    packetTime bt cs.ffcount bdTstamp

/-! ## What is asked for -/

/-- The clocks that can be asked for. -/
inductive StampClock where
  | fb | mono | native | diff
deriving DecidableEq, Repr

/-- The clock in a descriptor. -/
def stampClock (sysclockActive : Sysclock) (tstype : BitVec 32) : StampClock :=
  let clock := bpfTClock tstype
  if clock = BPF_T_SYSC then
    match sysclockActive with
    | .fb => .fb
    | .ff => .mono
  else if clock = BPF_T_FBC then .fb
  else if clock = BPF_T_MONOFFC then .mono
  else if clock = BPF_T_NATFFC then .native
  else .diff

/-- The flags of `ffclock_abstime` for a clock. The difference clock has no UTC, and as an uptime
it is the native one. -/
def StampClock.abstimeFlags (clock : StampClock) (uptime : Bool) : BitVec 32 :=
  match clock, uptime with
  | .mono, false => FFCLOCK_MONO ||| FFCLOCK_LEAPSEC
  | .mono, true => FFCLOCK_MONO ||| FFCLOCK_UPTIME
  | .diff, false => FFCLOCK_DIFF
  | _, false => FFCLOCK_LEAPSEC
  | _, true => FFCLOCK_UPTIME

/-- A clock read at the counter value of the snapshot, or at the start of the tick. -/
def reading (t : SnapState) (clock : StampClock) (uptime fast : Bool) : Bintime :=
  match clock, uptime, fast with
  | .fb, false, false => fbclockBintime t.atSnap
  | .fb, false, true => fbclockGetbintime t.atSnap
  | .fb, true, false => fbclockBinuptime t.atSnap
  | .fb, true, true => fbclockGetbinuptime t.atSnap
  | clock, uptime, fast =>
    (ffclockAbstime (clock.abstimeFlags uptime ||| if fast then FFCLOCK_FAST else 0)
      t.snap.ffcount t.ff).2.1

/-- What a packet of the descriptor is to carry. -/
def wanted (t : SnapState) (tstype : BitVec 32) : PacketTime :=
  packetTime (reading t (stampClock t.ff.sysclockActive tstype) (tstype &&& BPF_T_MONOTONIC ≠ 0)
    (tstype &&& BPF_T_FAST ≠ 0)) t.snap.ffcount tstype

/-- A packet as `bpf_tap` stamps it. -/
def SnapState.tap (t : SnapState) (tstype : BitVec 32) : Option PacketTime :=
  bpfTap t.ff.sysclockActive t.thBoottime t.snap tstype

/-- The snapshot is read as the clocks are, and on the line of the native clock the counter value
is past that of the tick, too. -/
structure Legible (t : SnapState) : Prop extends Plain t where
  native : t.ff.tick.tickFfcount.toNat + t.snap.delta.toNat < 2 ^ 64 ∨ t.ff.tick.cdat.period = 0

/-! ## The translation -/

/-- The family of a clock. -/
def StampClock.family : StampClock → Int
  | .fb => SYSCLOCK_FB
  | _ => SYSCLOCK_FF

/-- The flags of `sysclock_snap2bintime` for a clock. -/
def StampClock.sysflags (clock : StampClock) (uptime fast : Bool) : BitVec 32 :=
  match clock with
  | .fb => (if fast then FBCLOCK_FAST else 0) ||| if uptime then FBCLOCK_UPTIME else 0
  | clock =>
    (if fast then FFCLOCK_FAST else 0) ||| (if uptime then FFCLOCK_UPTIME else 0) |||
      match clock with
      | .mono => FFCLOCK_MONO
      | .diff => FFCLOCK_DIFF
      | _ => 0

theorem format_cases (tstype : BitVec 32) :
    bpfTFormat tstype = BPF_T_MICROTIME ∨ bpfTFormat tstype = BPF_T_NANOTIME ∨
      bpfTFormat tstype = BPF_T_BINTIME ∨ bpfTFormat tstype = BPF_T_NONE := by
  have hle : (bpfTFormat tstype).toNat ≤ 3 := by
    rw [bpfTFormat, BitVec.toNat_and]
    exact Nat.and_le_right
  have hvalues : BPF_T_MICROTIME.toNat = 0 ∧ BPF_T_NANOTIME.toNat = 1 ∧
      BPF_T_BINTIME.toNat = 2 ∧ BPF_T_NONE.toNat = 3 := by decide
  simp only [← BitVec.toNat_inj]
  omega

/-- No clock beyond the difference clock is accepted. -/
theorem clock_of_valid {tstype : BitVec 32} (h : bpfTValid tstype = true) :
    bpfTClock tstype = BPF_T_SYSC ∨ bpfTClock tstype = BPF_T_FBC ∨
      bpfTClock tstype = BPF_T_MONOFFC ∨ bpfTClock tstype = BPF_T_NATFFC ∨
        bpfTClock tstype = BPF_T_DIFFFFC := by
  have hle : bpfTClock tstype ≤ BPF_T_DIFFFFC := (of_decide_eq_true h).2
  -- the three bits of the mask leave eight values
  have hcases : ∀ b : BitVec 3, (b.setWidth 32 <<< 12) ≤ BPF_T_DIFFFFC →
      b.setWidth 32 <<< 12 = BPF_T_SYSC ∨ b.setWidth 32 <<< 12 = BPF_T_FBC ∨
        b.setWidth 32 <<< 12 = BPF_T_MONOFFC ∨ b.setWidth 32 <<< 12 = BPF_T_NATFFC ∨
          b.setWidth 32 <<< 12 = BPF_T_DIFFFFC := by decide
  have hbits : bpfTClock tstype = ((tstype >>> 12).setWidth 3).setWidth 32 <<< 12 := by
    apply BitVec.eq_of_getLsbD_eq
    intro i hi
    have hmask : ∀ i < 32, BPF_T_CLOCK_MASK.getLsbD i = decide (12 ≤ i ∧ i < 15) := by decide
    simp only [bpfTClock, BitVec.getLsbD_and, hmask i hi, BitVec.getLsbD_shiftLeft,
      BitVec.getLsbD_setWidth, BitVec.getLsbD_ushiftRight]
    by_cases hlow : i < 12
    · simp [hlow]
    · have hsum : 12 + (i - 12) = i := by omega
      simp only [hsum, hi, hlow, decide_true, decide_false, Bool.not_false, Bool.true_and]
      by_cases hhigh : i < 15
      · simp [hhigh, show 12 ≤ i by omega, show i - 12 < 3 by omega, show i - 12 < 32 by omega]
      · simp [hhigh, show ¬ i - 12 < 3 by omega]
  rw [hbits] at hle ⊢
  exact hcases _ hle

theorem translate_eq {tstype : BitVec 32} (h : bpfTValid tstype = true)
    (sysclockActive : Sysclock) :
    translateClockFlags sysclockActive tstype =
      ((stampClock sysclockActive tstype).family,
        (stampClock sysclockActive tstype).sysflags (tstype &&& BPF_T_MONOTONIC ≠ 0)
          (tstype &&& BPF_T_FAST ≠ 0)) := by
  unfold translateClockFlags stampClock
  by_cases hfast : tstype &&& BPF_T_FAST = 0 <;>
    by_cases hmono : tstype &&& BPF_T_MONOTONIC = 0 <;>
      simp only [hfast, hmono, ne_eq, not_true_eq_false, not_false_eq_true, decide_true,
        decide_false, if_true, if_false] <;>
      rcases clock_of_valid h with hclock | hclock | hclock | hclock | hclock <;>
        simp only [hclock] <;> cases sysclockActive <;> rfl

/-! ## The FFclock

A snapshot and a direct reading go to a point of the same line, and make the same of it. -/

/-- The line of a clock; as an uptime the difference clock is on the native one. -/
def StampClock.line (clock : StampClock) (uptime : Bool) : BitVec 32 :=
  match clock, uptime with
  | .mono, _ => FFCLOCK_MONO
  | .diff, false => FFCLOCK_DIFF
  | _, _ => 0

/-- What is made of a point of a clock's line. -/
def finish (t : SnapState) (clock : StampClock) (uptime : Bool) (cdat : FfclockData)
    (ffc : BitVec 64) (bt : Bintime) : Bintime :=
  if uptime then bt.sub t.ff.tick.ffclockBoottime
  else if clock = .diff then bt
  else { bt with sec := bt.sec - .ofInt 64 (leapsAt cdat ffc) }

variable {t : SnapState} {clock : StampClock}

theorem snap2bintime_ff (hclock : clock ≠ .fb) (uptime fast : Bool) :
    sysclockSnap2bintime t.thBoottime t.snap clock.family (clock.sysflags uptime fast) =
      some (finish t clock uptime t.ff.tick.cdat t.snap.ffcount
        (if fast then t.ff.tick.start (clock.line uptime)
          else snapPoint t (clock.line uptime))) := by
  cases fast with
  | true => cases clock <;> first | exact absurd rfl hclock | cases uptime <;> rfl
  | false =>
    have hslow : clock.sysflags uptime false &&& FFCLOCK_FAST = 0 := by
      cases clock <;> first | exact absurd rfl hclock | cases uptime <;> rfl
    have hfamily : clock.family = SYSCLOCK_FF := by
      cases clock <;> first | exact absurd rfl hclock | rfl
    have hne : SYSCLOCK_FF ≠ SYSCLOCK_FB := by decide
    unfold sysclockSnap2bintime snapPoint
    simp only [hslow, hfamily, hne, true_and, if_true, if_false]
    cases clock <;> first | exact absurd rfl hclock | cases uptime <;> rfl

theorem reading_ff (hclock : clock ≠ .fb) (uptime fast : Bool) :
    reading t clock uptime fast =
      finish t clock uptime t.ff.ffclockData
        (if fast then t.ff.tick.tickFfcount else t.snap.ffcount)
        (if fast then t.ff.tick.start (clock.line uptime)
          else ffclockConvertAbs t.snap.ffcount (clock.line uptime) t.ff) := by
  unfold finish
  simp only [← subtractLeaps_eq]
  cases clock <;> first | exact absurd rfl hclock | cases uptime <;> cases fast <;> rfl

theorem line_utc (clock : StampClock) (uptime : Bool) :
    has (clock.line uptime) FFCLOCK_UPTIME = false := by
  cases clock <;> cases uptime <;> rfl

/-- As uptimes two points are told apart. -/
theorem finish_uptime_eq_iff {cdat cdat' : FfclockData} {ffc ffc' : BitVec 64} {a b : Bintime} :
    finish t clock true cdat ffc a = finish t clock true cdat' ffc' b ↔ a = b := by
  rw [finish, finish, if_pos rfl, if_pos rfl, sub_eq_sub_iff]

/-- As UTC of one point, the leap seconds are. -/
theorem finish_mono_eq_iff {cdat cdat' : FfclockData} {ffc ffc' : BitVec 64} {bt : Bintime} :
    finish t .mono false cdat ffc bt = finish t .mono false cdat' ffc' bt ↔
      leapsAt cdat' ffc' = leapsAt cdat ffc := by
  rw [← leapsAt_eq_iff]
  simp only [finish, Bool.false_eq_true, if_false, reduceCtorEq, Bintime.mk.injEq, and_true,
    sub_right_inj]
  exact eq_comm

theorem finish_congr {uptime : Bool} {cdat cdat' : FfclockData} {ffc ffc' : BitVec 64}
    {a b : Bintime} (hleaps : leapsAt cdat' ffc' = leapsAt cdat ffc) (hpoint : a = b) :
    finish t clock uptime cdat ffc a = finish t clock uptime cdat' ffc' b := by
  rw [finish, finish, hleaps, hpoint]

/-- Every line is followed to the same point. -/
theorem Legible.point (h : Legible t) (clock : StampClock) (uptime : Bool) :
    snapPoint t (clock.line uptime) =
      ffclockConvertAbs t.snap.ffcount (clock.line uptime) t.ff := by
  rw [snapPoint_eq_iff (line_utc clock uptime)]
  cases clock <;> cases uptime <;> first | exact h.count | exact h.native

/-! ## Agreement -/

/-- A snapshot makes of a clock what a direct reading would have been. -/
def Agrees (t : SnapState) (clock : StampClock) (uptime fast : Bool) : Prop :=
  sysclockSnap2bintime t.thBoottime t.snap clock.family (clock.sysflags uptime fast) =
    some (reading t clock uptime fast)

theorem agrees_ff_iff (hclock : clock ≠ .fb) (uptime fast : Bool) :
    Agrees t clock uptime fast ↔
      finish t clock uptime t.ff.tick.cdat t.snap.ffcount
          (if fast then t.ff.tick.start (clock.line uptime)
            else snapPoint t (clock.line uptime)) =
        finish t clock uptime t.ff.ffclockData
          (if fast then t.ff.tick.tickFfcount else t.snap.ffcount)
          (if fast then t.ff.tick.start (clock.line uptime)
            else ffclockConvertAbs t.snap.ffcount (clock.line uptime) t.ff) := by
  rw [Agrees, snap2bintime_ff hclock, reading_ff hclock, Option.some_inj]

theorem Legible.agrees (h : Legible t) (clock : StampClock) (uptime fast : Bool) :
    Agrees t clock uptime fast := by
  by_cases hclock : clock = .fb
  · subst hclock
    cases uptime <;> cases fast
    · exact (snapUtc_eq_iff t).mpr h.scale
    · exact congrArg some t.bintime_eq.symm
    · exact (snapUptime_eq_iff t).mpr h.scale
    · rfl
  · rw [agrees_ff_iff hclock]
    cases fast with
    | true => exact finish_congr h.fast rfl
    | false => exact finish_congr h.leaps (h.point clock uptime)

theorem legible_of_agrees (h : ∀ clock uptime fast, Agrees t clock uptime fast) : Legible t := by
  have hline : ∀ uptime, StampClock.line .mono uptime = FFCLOCK_MONO := fun _ => rfl
  have hup := (agrees_ff_iff (by decide) true false).mp (h .mono true false)
  have hnat := (agrees_ff_iff (by decide) true false).mp (h .native true false)
  have hutc := (agrees_ff_iff (by decide) false false).mp (h .mono false false)
  have hfast := (agrees_ff_iff (by decide) false true).mp (h .mono false true)
  simp only [Bool.false_eq_true, if_false, finish_uptime_eq_iff] at hup hnat hutc
  refine
    { scale := (snapUptime_eq_iff t).mp (h .fb true false)
      count := (snapPoint_eq_iff (line_utc _ _)).mp hup
      leaps := ?_
      fast := finish_mono_eq_iff.mp hfast
      native := (snapPoint_eq_iff (line_utc _ _)).mp hnat }
  rw [hline] at hup hutc
  rw [hup] at hutc
  exact finish_mono_eq_iff.mp hutc

/-- The descriptor of a clock in the finest format. -/
def descriptorOf (clock : StampClock) (uptime fast : Bool) : BitVec 32 :=
  (match clock with
    | .fb => BPF_T_FBC
    | .mono => BPF_T_MONOFFC
    | .native => BPF_T_NATFFC
    | .diff => BPF_T_DIFFFFC) |||
    (if uptime then BPF_T_MONOTONIC else 0) ||| (if fast then BPF_T_FAST else 0) ||| BPF_T_BINTIME

/-- Nothing is lost in the finest format. -/
theorem agrees_of_tap (clock : StampClock) (uptime fast : Bool)
    (h : t.tap (descriptorOf clock uptime fast) =
      some (wanted t (descriptorOf clock uptime fast))) : Agrees t clock uptime fast := by
  -- the descriptor's bits name clock, uptime and fast one by one
  have hvalid : bpfTValid (descriptorOf clock uptime fast) = true := by
    cases clock <;> cases uptime <;> cases fast <;> rfl
  have hformat : bpfTFormat (descriptorOf clock uptime fast) = BPF_T_BINTIME := by
    cases clock <;> cases uptime <;> cases fast <;> rfl
  have hclock : stampClock t.ff.sysclockActive (descriptorOf clock uptime fast) = clock := by
    cases clock <;> cases uptime <;> cases fast <;> rfl
  have huptime : decide (descriptorOf clock uptime fast &&& BPF_T_MONOTONIC ≠ 0) = uptime := by
    cases clock <;> cases uptime <;> cases fast <;> rfl
  have hfast : decide (descriptorOf clock uptime fast &&& BPF_T_FAST ≠ 0) = fast := by
    cases clock <;> cases uptime <;> cases fast <;> rfl
  unfold SnapState.tap bpfTap tapBintime at h
  rw [translate_eq hvalid, hformat, if_neg (by decide), hclock, huptime, hfast] at h
  -- the stamp is the snapshot's time, up to the format
  obtain ⟨bt, hbt, htime⟩ := Option.map_eq_some_iff.mp h
  have hbt : sysclockSnap2bintime t.thBoottime t.snap clock.family (clock.sysflags uptime fast) =
      some bt := hbt
  rw [Agrees, hbt]
  have hts := congrArg PacketTime.bhTstamp htime
  simp only [wanted, packetTime, hclock, huptime, hfast, bpfBintime2ts, hformat] at hts
  obtain ⟨hsec, hfrac⟩ := BpfTs.mk.inj hts
  exact congrArg some (Bintime.ext hsec hfrac)

theorem Legible.tap_eq (h : Legible t) {tstype : BitVec 32} (hvalid : bpfTValid tstype = true) :
    t.tap tstype = some (wanted t tstype) := by
  unfold SnapState.tap bpfTap tapBintime
  by_cases hnone : bpfTFormat tstype = BPF_T_NONE
  · have hts : ∀ bt, bpfBintime2ts bt tstype = ⟨0, 0⟩ := by
      intro bt
      rw [bpfBintime2ts, hnone]
      rfl
    rw [if_pos hnone, Option.map_some, wanted, packetTime, packetTime, hts, hts]
  · rw [if_neg hnone, translate_eq hvalid]
    exact congrArg (Option.map _) (h.agrees _ _ _)

/-- Whatever descriptors are open, each packet carries the time that its descriptor's clock reads
at the counter value of the snapshot, in the format asked for, exactly if the FBclock's product
fits, the counter has not wrapped since the tick, and no leap second is pending. -/
theorem taps_iff (t : SnapState) :
    (∀ tstype, bpfTValid tstype = true → t.tap tstype = some (wanted t tstype)) ↔ Legible t := by
  constructor
  · intro h
    refine legible_of_agrees fun clock uptime fast => agrees_of_tap clock uptime fast (h _ ?_)
    cases clock <;> cases uptime <;> cases fast <;> rfl
  · exact fun h _ hvalid => h.tap_eq hvalid

end RADclock.Kernel
