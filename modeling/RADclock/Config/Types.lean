import RADclock.Daemon.Config
import RADclock.Lib.Decimal

/-!
# The configuration record and its keys (`config_mgr.h`, `config_mgr.c`)

`struct radclock_config` as the configuration file can set it. A numeric field has the range
that the parser enforces in its type. Fields that the source treats alike are families: the
nine fields with a table of labels, the five metaparameters that are numbers of their own, the
two asymmetries and the eight texts. Each member has its own row in the tables of this file.

- `Key`: the `CONFIG_*` codes, with `keys`, the table of labels of the configuration file.
- `Bit`: the `UPDMASK_*` bits of fields that the file can set.
- `RadclockConfig`, `configInit`: the record and its initial value.
- `strtod`, `atoi`: the numbers of the file.
-/

namespace RADclock.ConfigMgr

open Lib

/-! ## Keys -/

/-- Fields whose value is an index into a table of labels. -/
inductive OptionKey where
  | verbose | synchroType | serverIpc | serverNtp | serverVmUdp | serverXen | serverVmware
  | adjustFFclock | adjustFBclock
deriving DecidableEq, Repr

/-- Metaparameters that are floating-point numbers of the file. -/
inductive ScaleKey where
  | tslimit | skmScale | rateErrBound | bestSkmRate | plocalQuality
deriving DecidableEq, Repr

inductive AsymKey where
  | host | net
deriving DecidableEq, Repr

/-- Names and paths. -/
inductive TextKey where
  | hostname | networkdev | syncInPcap | syncInAscii | syncOutPcap | syncOutAscii | clockOutAscii
  | vmUdpList
deriving DecidableEq, Repr

/-- The `CONFIG_*` codes. -/
inductive Key where
  | unknown
  | radclockVersion
  | option (k : OptionKey)
  | pollPeriod
  | tempQuality
  | scale (k : ScaleKey)
  | offsetRatio
  | phatInit
  | asym (k : AsymKey)
  | text (k : TextKey)
  | timeServer
deriving DecidableEq, Repr

/-- The keys of the configuration file, without the entry that ends the table. -/
def keys : List (Text × Key) :=
  [("radclock_version".toList, .radclockVersion),
   ("verbose_level".toList, .option .verbose),
   ("synchronization_type".toList, .option .synchroType),
   ("ipc_server".toList, .option .serverIpc),
   ("ntp_server".toList, .option .serverNtp),
   ("vm_udp_server".toList, .option .serverVmUdp),
   ("xen_server".toList, .option .serverXen),
   ("vmware_server".toList, .option .serverVmware),
   ("adjust_FFclock".toList, .option .adjustFFclock),
   ("adjust_FBclock".toList, .option .adjustFBclock),
   ("polling_period".toList, .pollPeriod),
   ("temperature_quality".toList, .tempQuality),
   ("ts_limit".toList, .scale .tslimit),
   ("skm_scale".toList, .scale .skmScale),
   ("rate_error_bound".toList, .scale .rateErrBound),
   ("best_skm_rate".toList, .scale .bestSkmRate),
   ("offset_ratio".toList, .offsetRatio),
   ("plocal_quality".toList, .scale .plocalQuality),
   ("init_period_estimate".toList, .phatInit),
   ("host_asymmetry".toList, .asym .host),
   ("network_asymmetry".toList, .asym .net),
   ("hostname".toList, .text .hostname),
   ("time_server".toList, .timeServer),
   ("network_device".toList, .text .networkdev),
   ("sync_input_pcap".toList, .text .syncInPcap),
   ("sync_input_ascii".toList, .text .syncInAscii),
   ("sync_output_pcap".toList, .text .syncOutPcap),
   ("sync_output_ascii".toList, .text .syncOutAscii),
   ("clock_output_ascii".toList, .text .clockOutAscii),
   ("vm_udp_list".toList, .text .vmUdpList)]

/-- `match_key`. -/
def matchKey (keylabel : Text) : Key :=
  ((keys.find? fun p => p.1 = keylabel).map Prod.snd).getD .unknown

/-- `find_key_label`. -/
def findKeyLabel (codekey : Key) : Text :=
  ((keys.find? fun p => p.2 = codekey).map Prod.fst).getD []

/-! ## Labels and defaults -/

def labelsBool : List Text := ["off".toList, "on".toList]

def labelsVerb : List Text := ["quiet".toList, "normal".toList, "high".toList]

def labelsSync : List Text :=
  ["spy".toList, "piggy".toList, "ntp".toList, "ieee1588".toList, "pps".toList,
   "vm_udp".toList, "xen".toList, "vmware".toList]

def OptionKey.labels : OptionKey → List Text
  | .verbose => labelsVerb
  | .synchroType => labelsSync
  | _ => labelsBool

/-- `DEFAULT_*`. -/
def OptionKey.default : OptionKey → Nat
  | .verbose => 1
  | .synchroType => 2
  | .serverIpc => 1
  | .serverNtp => 0
  | .serverVmUdp => 0
  | .serverXen => 0
  | .serverVmware => 0
  | .adjustFFclock => 1
  | .adjustFBclock => 0

/-- `check_valid_option`. -/
def checkValidOption (value : Text) (labels : List Text) : Int :=
  match labels.findIdx? (· = value) with
  | some i => i
  | none => -1

/-! ## Update masks -/

/-- The `UPDMASK_*` bits that stand for something the file can set. -/
inductive Bit where
  | pollPeriod
  | tempQuality
  | asym (k : AsymKey)
  | option (k : OptionKey)
  | text (k : TextKey)
  | timeServer
deriving DecidableEq, Repr

def Bit.mask : Bit → UInt32
  | .pollPeriod => UPDMASK_POLLPERIOD
  | .tempQuality => UPDMASK_TEMPQUALITY
  | .asym .host => 0x0000008
  | .asym .net => 0x0000010
  | .option .serverIpc => 0x0000020
  | .option .synchroType => 0x0000040
  | .option .serverNtp => 0x0000080
  | .option .adjustFFclock => 0x0000100
  | .option .adjustFBclock => 0x0000200
  | .text .hostname => 0x0000400
  | .timeServer => 0x0000800
  | .option .verbose => 0x0001000
  | .text .networkdev => 0x0002000
  | .text .syncInPcap => 0x0004000
  | .text .syncInAscii => 0x0008000
  | .text .syncOutPcap => 0x0010000
  | .text .syncOutAscii => 0x0020000
  | .text .clockOutAscii => 0x0040000
  | .option .serverVmUdp => 0x0080000
  | .option .serverXen => 0x0100000
  | .option .serverVmware => 0x0200000
  | .text .vmUdpList => 0x0400000

/-- `HAS_UPDATE(mask, UPDMASK_..)`. -/
def isSet (mask : UInt32) (b : Bit) : Bool := hasUpdate mask b.mask

/-- `SET_UPDATE(mask, UPDMASK_..)`. -/
def setUpdate (mask : UInt32) (b : Bit) : UInt32 := mask ||| b.mask

theorem isSet_noupd (b : Bit) : isSet UPDMASK_NOUPD b = false := by
  rcases b with _ | _ | k | k | k | _ <;> (try cases k) <;> rfl

theorem mask_and_mask (b b' : Bit) (h : b ≠ b') : b.mask &&& b'.mask = 0 := by
  rcases b with _ | _ | k | k | k | _ <;> rcases b' with _ | _ | k' | k' | k' | _ <;>
    (try cases k) <;> (try cases k') <;> first | rfl | exact absurd rfl h

/-- Every bit is one bit of its own. -/
theorem isSet_setUpdate (mask : UInt32) (b b' : Bit) :
    isSet (setUpdate mask b) b' = (decide (b = b') || isSet mask b') := by
  have hdist : (mask ||| b.mask) &&& b'.mask = (mask &&& b'.mask) ||| (b.mask &&& b'.mask) :=
    UInt32.toBitVec_inj.mp (BitVec.and_or_distrib_right)
  unfold isSet setUpdate hasUpdate
  rw [hdist]
  by_cases h : b = b'
  · subst h
    have habsorb : (mask &&& b.mask) ||| (b.mask &&& b.mask) = b.mask := by
      apply UInt32.toBitVec_inj.mp
      simp only [UInt32.toBitVec_or, UInt32.toBitVec_and]
      ext i
      simp
    rw [habsorb]
    simp
  · rw [mask_and_mask b b' h]
    simp [h]

/-! ## Numbers -/

/-- The double nearest to a number. -/
def floatOfNumber : Number → Float
  | .decimal neg m e => signed neg (scaled m e)
  | .binary neg m e =>
    -- A power of two is a decimal number.
    signed neg (if 0 ≤ e then scaled (m * 2 ^ e.toNat) 0 else scaled (m * 5 ^ (-e).toNat) e)
  | .infinity neg => signed neg (1.0 / 0.0)
  | .nan => 0.0 / 0.0
where
  signed (neg : Bool) (x : Float) : Float := if neg then -x else x
  scaled (m : Nat) (e : Int) : Float := OfScientific.ofScientific m (decide (e < 0)) e.natAbs

/-- `strtod`. -/
def strtod (value : Text) : Float :=
  match scanNumber value with
  | .assigned x _ => floatOfNumber x
  | _ => 0.0

/-- `atoi`. -/
def atoi (value : Text) : Int32 :=
  match scanInt value with
  | .assigned n _ => n
  | _ => 0

/-! ## The record -/

/-- A polling period within `[RAD_MINPOLL, RAD_MAXPOLL]`. -/
def PollPeriod : Type := { n : Int32 // 1 ≤ n.toInt ∧ n.toInt ≤ 1024 }

/-- A metaparameter: anything but a negative number. -/
def Scale : Type := { x : Float // ¬ x < 0.0 }

def OffsetRatio : Type := { n : Int32 // 0 < n.toInt }

/-- `phat_init`. -/
def PhatInit : Type := { x : Float // ¬ (x < 0.0 ∨ x == 0.0 ∨ 1.0 < x) }

/-- An asymmetry in seconds. -/
def Asym : Type := { x : Float // ¬ (x < 0.0 ∨ 1.0 < x) }

/-- The memory behind `conf->time_server`: the bytes allocated, and the string that starts at
each multiple of `MAXLINE` from its origin, allocated or not. -/
structure ServerMem where
  size : Nat
  block : Nat → Text

/-- `struct radclock_config`, the fields of the configuration file. -/
structure RadclockConfig where
  radclockVersion : Text
  option : OptionKey → Nat
  pollPeriod : PollPeriod
  scale : ScaleKey → Scale
  offsetRatio : OffsetRatio
  phatInit : PhatInit
  asym : AsymKey → Asym
  text : TextKey → Text
  timeServer : ServerMem

def MAXLINE : Nat := 250

/-! ## Temperature environments -/

/-- `CONFIG_QUALITY_*`. -/
inductive Quality where
  | poor | good | excel
deriving DecidableEq, Repr

/-- The table `temp_quality`. -/
def Quality.label : Quality → Text
  | .poor => "poor".toList
  | .good => "good".toList
  | .excel => "excellent".toList

/-- The presets of `sync_algo.h`. -/
def Quality.value : Quality → ScaleKey → Float
  | _, .tslimit => 0.000015
  | .excel, .skmScale => 1024.0
  | .good, .skmScale => 1024.0
  | .poor, .skmScale => 512.0
  | .excel, .rateErrBound => 0.0000001
  | .good, .rateErrBound => 0.0000005
  | .poor, .rateErrBound => 0.000001
  | .excel, .bestSkmRate => 0.00000005
  | .good, .bestSkmRate => 0.0000002
  | .poor, .bestSkmRate => 0.000001
  | .excel, .plocalQuality => 0.0000008
  | .good, .plocalQuality => 0.0000008
  | .poor, .plocalQuality => 0.000002

def Quality.scale (q : Quality) (k : ScaleKey) : Scale :=
  ⟨q.value k, by cases q <;> cases k <;> decide⟩

def Quality.offsetRatio : Quality → OffsetRatio
  | .excel => ⟨6, by decide⟩
  | .good => ⟨10, by decide⟩
  | .poor => ⟨10, by decide⟩

/-- The label of a temperature environment, if it is one. -/
def findQuality (value : Text) : Option Quality :=
  [Quality.poor, .good, .excel].find? fun q => q.label = value

/-! ## Initialisation -/

def defaultPollPeriod : PollPeriod := ⟨16, by decide⟩

def defaultPhatInit : PhatInit := ⟨1e-9, by decide⟩

def defaultAsym : Asym := ⟨0.0, by decide⟩

/-- `config_init`, on a record that was cleared (so the verbosity is `0`). One block is allocated
for the time servers; `beyond` is what follows it in memory. -/
def configInit (packageVersion : Text) (beyond : Nat → Text) : RadclockConfig where
  radclockVersion := packageVersion
  option
    | .verbose => 0
    | k => k.default
  pollPeriod := defaultPollPeriod
  scale := Quality.good.scale
  offsetRatio := Quality.good.offsetRatio
  phatInit := defaultPhatInit
  asym _ := defaultAsym
  text _ := []
  timeServer := ⟨1 * MAXLINE, fun i => if i = 0 then [] else beyond i⟩

end RADclock.ConfigMgr
