import RADclock.Kernel.Bpf
import RADclock.Lib.Runs

/-!
# Timestamping modes (`radapi-pcap.c`, `pcap-fbsd.c`)

An application chooses the clock its packets are stamped by through `pktcap_set_tsmode`: one of the
presets, or a word of its own for the descriptor. The library notes the mode, and what it asks for
is kept by the kernel as that word, out of which `pktcap_get_tsmode` makes a mode again.

- `pktcapSetTsmode`, `pktcapGetTsmode`: the code, under the kernels of versions 2 and 3.
- `lastAccepted`: the request that is in force.
- `stamped_as_asked`: after any requests, packets are stamped as the one in force asks for.
-/

namespace RADclock.Capture

open Lib Kernel

/-! ## The code -/

/-- `pktcap_tsmode_t`. -/
inductive PktcapTsmode where
  | nomode | sysclock | fbclock | ffclock | ffnativeclock | ffdiffclock | radclock | custom
deriving DecidableEq, Repr

/-- A clock handle with the descriptor that its packets come from. -/
structure PcapHandle where
  tsmode : PktcapTsmode
  bdTstamp : BitVec 32
deriving DecidableEq, Repr

/-- The kernel: its version, and the words that its `BIOCSTSTAMP` accepts. -/
structure BpfKernel where
  version : Nat
  valid : BitVec 32 → Bool

/-- The FreeBSD kernel with the FFclock. -/
def kv3 : BpfKernel := ⟨3, bpfTValid⟩

variable (k : BpfKernel)

/-- `BIOCSTSTAMP`, which reads an `u_int` where a `long` is, on a little-endian machine; nothing is
returned for `EINVAL`. -/
def biocststamp (bdTstamp : BitVec 64) : Option (BitVec 32) :=
  let func := bdTstamp.setWidth 32
  if k.valid func then some func else none

/-- The `bd_tstamp` of a mode under version 3; nothing for an unknown mode. -/
def bdTstampKV3 (mode : PktcapTsmode) (custom : BitVec 32) : Option (BitVec 64) :=
  let bdTstamp := BPF_T_MICROTIME ||| BPF_T_FFC ||| BPF_T_NORMAL
  match mode with
  | .sysclock => some ((bdTstamp ||| BPF_T_SYSC).setWidth 64)
  | .fbclock => some ((bdTstamp ||| BPF_T_FBC).setWidth 64)
  | .ffclock => some ((bdTstamp ||| BPF_T_MONOFFC).setWidth 64)
  | .radclock | .ffnativeclock => some ((bdTstamp ||| BPF_T_NATFFC).setWidth 64)
  | .ffdiffclock => some ((bdTstamp ||| BPF_T_DIFFFFC).setWidth 64)
  | .custom => some (custom.setWidth 64)
  | .nomode => none

/-- The `bd_tstamp` of a mode under version 2, with the mode that is in its place. -/
def bdTstampKV2 (mode : PktcapTsmode) : Option (BitVec 64 × PktcapTsmode) :=
  match mode with
  | .sysclock | .fbclock | .ffclock | .ffnativeclock | .ffdiffclock | .radclock =>
    some ((BPF_T_MICROTIME ||| BPF_T_NORMAL ||| BPF_T_SYSC).setWidth 64, .radclock)
  | .nomode | .custom => none

/-- `descriptor_set_tsmode`: the word that the kernel keeps, and the final mode. -/
def descriptorSetTsmode (mode : PktcapTsmode) (custom : BitVec 32) :
    Option (BitVec 32 × PktcapTsmode) :=
  match k.version with
  | 2 => (bdTstampKV2 mode).bind fun (bdTstamp, mode) => (biocststamp k bdTstamp).map (·, mode)
  | 3 => (bdTstampKV3 mode custom).bind fun bdTstamp => (biocststamp k bdTstamp).map (·, mode)
  | _ => none

/-- `pktcap_set_tsmode` on a live handle. -/
def pktcapSetTsmode (mode : PktcapTsmode) (custom : BitVec 32) (s : PcapHandle) :
    Int × PcapHandle :=
  match descriptorSetTsmode k mode custom with
  | none => (-1, s)
  | some (bdTstamp, mode) => (0, { tsmode := mode, bdTstamp := bdTstamp })

def BPF_T_FFCOUNTER : BitVec 64 := 0x0004

/-- `descriptor_get_tsmode`, from what `BIOCGTSTAMP` writes into a `long` of `0`. -/
def descriptorGetTsmode (bdTstamp : BitVec 64) : Option PktcapTsmode :=
  match k.version with
  | 2 => some (if bdTstamp = BPF_T_FFCOUNTER then .radclock else .nomode)
  | 3 =>
    let clock := bdTstamp &&& BPF_T_CLOCK_MASK.setWidth 64
    if clock = BPF_T_SYSC.setWidth 64 then some .sysclock
    else if clock = BPF_T_FBC.setWidth 64 then some .fbclock
    else if clock = BPF_T_MONOFFC.setWidth 64 then some .ffclock
    else if clock = BPF_T_NATFFC.setWidth 64 then some .ffnativeclock
    else if clock = BPF_T_DIFFFFC.setWidth 64 then some .ffdiffclock
    -- The mode stays as the caller has it.
    else some .nomode
  | _ => none

/-- `pktcap_get_tsmode`, where it returns `0`. -/
def pktcapGetTsmode (s : PcapHandle) : Option PktcapTsmode :=
  descriptorGetTsmode k (s.bdTstamp.setWidth 64)

/-! ## What is asked for -/

/-- The requests that are granted under version 3. -/
def acceptable (request : PktcapTsmode × BitVec 32) : Bool :=
  match request.1 with
  | .nomode => false
  | .custom => bpfTValid request.2
  | _ => true

/-- The request in force after some have been made. -/
def lastAccepted (requests : List (PktcapTsmode × BitVec 32)) :
    Option (PktcapTsmode × BitVec 32) :=
  (requests.filter acceptable).getLast?

/-- The clock of a preset; the radclock is to be compared with the kernel's native clock. -/
def PktcapTsmode.clock (sysclockActive : Sysclock) : PktcapTsmode → StampClock
  | .fbclock => .fb
  | .ffclock => .mono
  | .ffdiffclock => .diff
  | .ffnativeclock | .radclock => .native
  | _ => match sysclockActive with
    | .fb => .fb
    | .ff => .mono

/-- What the packets of a request are to carry: for a preset its clock's UTC in microseconds, with
the counter. -/
def asked (t : SnapState) (mode : PktcapTsmode) (custom : BitVec 32) : PacketTime :=
  match mode with
  | .custom => wanted t custom
  | mode =>
    let time := bintime2timeval (reading t (mode.clock t.ff.sysclockActive) false false)
    ⟨⟨.ofInt 64 time.tvSec, .ofInt 64 time.tvUsec⟩, t.snap.ffcount⟩

/-- The mode that is read back: a word of one's own counts as the preset of its clock. -/
def readBack (mode : PktcapTsmode) (custom : BitVec 32) : PktcapTsmode :=
  match mode with
  | .radclock => .ffnativeclock
  | .custom =>
    let clock := bpfTClock custom
    if clock = BPF_T_SYSC then .sysclock
    else if clock = BPF_T_FBC then .fbclock
    else if clock = BPF_T_MONOFFC then .ffclock
    else if clock = BPF_T_NATFFC then .ffnativeclock
    else .ffdiffclock
  | mode => mode

/-- A request is in force. -/
structure InForce (s : PcapHandle) (mode : PktcapTsmode) (custom : BitVec 32) : Prop where
  tsmode : s.tsmode = mode
  get : pktcapGetTsmode kv3 s = some (readBack mode custom)
  tap : ∀ t : SnapState, Legible t → t.tap s.bdTstamp = some (asked t mode custom)

/-! ## One request -/

/-- The word of a preset, or of the application. -/
def word (mode : PktcapTsmode) (custom : BitVec 32) : BitVec 32 :=
  match mode with
  | .fbclock => BPF_T_FFC ||| BPF_T_FBC
  | .ffclock => BPF_T_FFC ||| BPF_T_MONOFFC
  | .ffdiffclock => BPF_T_FFC ||| BPF_T_DIFFFFC
  | .ffnativeclock | .radclock => BPF_T_FFC ||| BPF_T_NATFFC
  | .custom => custom
  | _ => BPF_T_FFC ||| BPF_T_SYSC

theorem set_kv3 (mode : PktcapTsmode) (custom : BitVec 32) (s : PcapHandle) :
    pktcapSetTsmode kv3 mode custom s =
      if acceptable (mode, custom) then (0, { tsmode := mode, bdTstamp := word mode custom })
      else (-1, s) := by
  cases mode with
  | custom =>
    have hround : (custom.setWidth 64).setWidth 32 = custom := by
      apply BitVec.eq_of_toNat_eq
      have := custom.isLt
      simp only [BitVec.toNat_setWidth]
      omega
    have hset : descriptorSetTsmode kv3 .custom custom =
        (if bpfTValid custom then some custom else none).map (·, .custom) := by
      simp only [descriptorSetTsmode, kv3, bdTstampKV3, biocststamp, hround, Option.bind_some]
    have haccept : acceptable (.custom, custom) = bpfTValid custom := rfl
    rw [pktcapSetTsmode, hset, haccept]
    cases bpfTValid custom <;> rfl
  | _ => rfl

theorem valid_word {mode : PktcapTsmode} {custom : BitVec 32}
    (h : acceptable (mode, custom) = true) : bpfTValid (word mode custom) = true := by
  cases mode with
  | custom => exact h
  | _ => simp only [word]; rfl

/-- The bits of the clock are read back through a wider word. -/
theorem get_kv3 (s : PcapHandle) (h : bpfTValid s.bdTstamp = true) :
    pktcapGetTsmode kv3 s = some (readBack .custom s.bdTstamp) := by
  have hwide : s.bdTstamp.setWidth 64 &&& BPF_T_CLOCK_MASK.setWidth 64 =
      (bpfTClock s.bdTstamp).setWidth 64 := by
    rw [bpfTClock, BitVec.setWidth_and]
  simp only [pktcapGetTsmode, descriptorGetTsmode, kv3, hwide, readBack]
  rcases clock_of_valid h with hclock | hclock | hclock | hclock | hclock <;>
    rw [hclock] <;> rfl

theorem readBack_word {mode : PktcapTsmode} (custom : BitVec 32) (h : mode ≠ .nomode) :
    readBack .custom (word mode custom) = readBack mode custom := by
  cases mode <;> first | exact absurd rfl h | rfl | (simp only [word]; rfl)

theorem wanted_word {mode : PktcapTsmode} (t : SnapState) (custom : BitVec 32) :
    wanted t (word mode custom) = asked t mode custom := by
  cases mode <;> first | rfl | (simp only [word]; rfl)

theorem inForce_set {mode : PktcapTsmode} {custom : BitVec 32}
    (h : acceptable (mode, custom) = true) :
    InForce ⟨mode, word mode custom⟩ mode custom := by
  have hvalid := valid_word h
  exact
    { tsmode := rfl
      get := by
        have hmode : mode ≠ .nomode := by
          rintro rfl
          cases h
        rw [get_kv3 _ hvalid, readBack_word custom hmode]
      tap := fun t ht => by rw [ht.tap_eq hvalid, wanted_word] }

/-! ## Any requests -/

/-- The handle after some requests. -/
def afterRequests (requests : List (PktcapTsmode × BitVec 32)) (s : PcapHandle) : PcapHandle :=
  runSteps (fun s request => (pktcapSetTsmode kv3 request.1 request.2 s).2) s requests

/-- After any requests the last one granted is in force: it is what the library notes, its clock is
the one read back, and packets are stamped by that clock. One that is refused changes nothing. -/
theorem stamped_as_asked (requests : List (PktcapTsmode × BitVec 32)) (s : PcapHandle) :
    match lastAccepted requests with
    | none => afterRequests requests s = s
    | some (mode, custom) => InForce (afterRequests requests s) mode custom := by
  induction requests using List.reverseRecOn with
  | nil => rfl
  | append_singleton requests request ih =>
    obtain ⟨mode, custom⟩ := request
    have hrun : afterRequests (requests ++ [(mode, custom)]) s =
        (pktcapSetTsmode kv3 mode custom (afterRequests requests s)).2 :=
      runSteps_append _ _ _ _
    rw [hrun, set_kv3]
    by_cases haccept : acceptable (mode, custom) = true
    · have hlast : lastAccepted (requests ++ [(mode, custom)]) = some (mode, custom) := by
        rw [lastAccepted, List.filter_append, List.filter_singleton, haccept]
        exact List.getLast?_concat
      rw [hlast, if_pos haccept]
      exact inForce_set haccept
    · have hlast : lastAccepted (requests ++ [(mode, custom)]) = lastAccepted requests := by
        rw [lastAccepted, List.filter_append, List.filter_singleton,
          Bool.eq_false_of_not_eq_true haccept]
        exact congrArg List.getLast? (List.append_nil _)
      rw [hlast, if_neg haccept]
      exact ih

end RADclock.Capture
