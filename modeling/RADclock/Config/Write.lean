import Mathlib.Data.List.DropRight
import RADclock.Config.Types

/-!
# Writing the configuration file (`write_config_file`)

The file is a list of lines: comments, blank lines and settings. The source writes it with one
`fprintf` after the other; here each paragraph of the file is a list of `Item`s, and
`writeConfigFile` puts the paragraphs together in the order of the source.

Without a configuration the defaults are written. With one, a text field that is empty is written
as a commented-out default, and the temperature environment as a keyword if the metaparameters
are those of a keyword, as six numbers otherwise.
-/

namespace RADclock.ConfigMgr

open Lib

/-! ## Numbers -/

def isNegative : Float.Model.UnpackedFloat.Sign → Bool
  | .negative => true
  | .positive => false

/-- `%.kf` of a `double`. -/
def printDouble (k : Nat) (x : Float) : Text :=
  match x.toModel.unpack with
  | .infinity s => printSign (isNegative s) ++ "inf".toList
  | .notANumber => "nan".toList
  | .zero s => printFixed k (isNegative s) 0
  | .finite s m e _ => printFixed k (isNegative s) (roundHalfEven (m * 2 ^ e * 10 ^ k))

/-- The exponent of the first digit of a positive number. -/
def decimalExponent (q : ℚ) : Int :=
  let d : Int := (printUnsigned q.num.natAbs).length - (printUnsigned q.den).length
  if (10 : ℚ) ^ d ≤ q then d else d - 1

/-- Six significant digits, and the exponent of the first. -/
def sixDigits (q : ℚ) : Nat × Int :=
  let X := decimalExponent q
  let n := roundHalfEven (q * 10 ^ (5 - X))
  if n = 10 ^ 6 then (10 ^ 5, X + 1) else (n, X)

/-- Digits after the point, without trailing zeros. -/
def printFraction (ds : Text) : Text :=
  let frac := ds.rdropWhile (· = '0')
  if frac = [] then [] else '.' :: frac

/-- `%lg` of a positive number. -/
def printShort (q : ℚ) : Text :=
  let (n, X) := sixDigits q
  let ds := printUnsigned n
  if X < -4 ∨ 6 ≤ X then
    ds.take 1 ++ printFraction (ds.drop 1) ++ 'e' :: (if X < 0 then '-' else '+') ::
      printPadded 2 X.natAbs
  else if X < 0 then '0' :: printFraction (List.replicate ((-X).toNat - 1) '0' ++ ds)
  else ds.take (X.toNat + 1) ++ printFraction (ds.drop (X.toNat + 1))

/-- `%lg` of a `double`. -/
def printGeneral (x : Float) : Text :=
  match x.toModel.unpack with
  | .infinity s => printSign (isNegative s) ++ "inf".toList
  | .notANumber => "nan".toList
  | .zero s => printSign (isNegative s) ++ ['0']
  | .finite s m e _ => printSign (isNegative s) ++ printShort (m * 2 ^ e)

/-! ## Lines -/

/-- A line of the file. -/
inductive Item where
  | blank
  | comment (text : Text)
  | setting (label value : Text)

def Item.render : Item → Text
  | .blank => ['\n']
  | .comment text => '#' :: text ++ ['\n']
  | .setting label value => label ++ " = ".toList ++ value ++ ['\n']

def comments (lines : List String) : List Item := lines.map fun l => .comment l.toList

/-- The three lines around the title of a part. -/
def title (name : String) : List Item :=
  [.blank, .blank, .blank,
   .comment "----------------------------------------------------------------------------#".toList,
   .comment name.toList,
   .comment "----------------------------------------------------------------------------#".toList,
   .blank]

/-- `fprintf(fd, "%s = %s\n\n", ..)`. -/
def setting (key : Key) (value : Text) : List Item := [.setting (findKeyLabel key) value, .blank]

/-- `fprintf(fd, "#%s = %s\n", ..)`. -/
def commentedOut (key : Key) (value : Text) : Item :=
  .comment (findKeyLabel key ++ " = ".toList ++ value)

/-- A field with labels; an index outside its table would be read from other memory. -/
def optionSetting (conf : Option RadclockConfig) (k : OptionKey) : Option (List Item) :=
  (k.labels[(conf.elim k.default fun c => c.option k)]?).map (setting (.option k))

/-- A text, or its default in a comment. -/
def textSetting (conf : Option RadclockConfig) (k : TextKey) (default : String) : List Item :=
  let value := conf.elim [] fun c => c.text k
  if 0 < value.length then setting (.text k) value
  else [commentedOut (.text k) default.toList, .blank]

/-! ## Temperature environment -/

/-- `get_temperature_config`; `none` is `CONFIG_QUALITY_UNKWN`. -/
def getTemperatureConfig (conf : RadclockConfig) : Option Quality :=
  [Quality.poor, .good, .excel].find? fun q =>
    (conf.scale .tslimit).1 == (q.scale .tslimit).1 &&
    (conf.scale .rateErrBound).1 == (q.scale .rateErrBound).1 &&
    (conf.scale .skmScale).1 == (q.scale .skmScale).1 &&
    (conf.scale .bestSkmRate).1 == (q.scale .bestSkmRate).1 &&
    conf.offsetRatio.1 == q.offsetRatio.1 &&
    (conf.scale .plocalQuality).1 == (q.scale .plocalQuality).1

/-- The keyword, in a comment when the configuration is not one of them. -/
def qualitySetting (conf : Option RadclockConfig) : List Item :=
  match conf with
  | none => setting .tempQuality Quality.good.label
  | some c =>
    match getTemperatureConfig c with
    | some q => setting .tempQuality q.label
    | none => [commentedOut .tempQuality Quality.good.label, .blank]

/-- The six numbers, in comments unless the configuration is not one of the keywords. -/
def expertSettings (conf : Option RadclockConfig) : List Item :=
  match conf.bind fun c => if (getTemperatureConfig c).isNone then some c else none with
  | none =>
    [commentedOut (.scale .tslimit) (printDouble 9 (Quality.good.value .tslimit)),
     commentedOut (.scale .skmScale) (printDouble 9 (Quality.good.value .skmScale)),
     commentedOut (.scale .rateErrBound) (printDouble 9 (Quality.good.value .rateErrBound)),
     commentedOut (.scale .bestSkmRate) (printDouble 9 (Quality.good.value .bestSkmRate)),
     commentedOut .offsetRatio (printInt Quality.good.offsetRatio.1.toInt),
     commentedOut (.scale .plocalQuality) (printDouble 9 (Quality.good.value .plocalQuality)),
     .blank]
  | some c =>
    [.setting (findKeyLabel (.scale .tslimit)) (printDouble 9 (c.scale .tslimit).1),
     .setting (findKeyLabel (.scale .skmScale)) (printDouble 9 (c.scale .skmScale).1),
     .setting (findKeyLabel (.scale .rateErrBound)) (printDouble 9 (c.scale .rateErrBound).1),
     .setting (findKeyLabel (.scale .bestSkmRate)) (printDouble 9 (c.scale .bestSkmRate).1),
     .setting (findKeyLabel .offsetRatio) (printInt c.offsetRatio.1.toInt),
     .setting (findKeyLabel (.scale .plocalQuality)) (printDouble 9 (c.scale .plocalQuality).1),
     .blank]

/-! ## Time servers -/

/-- The servers, one line each; the default if there is no name in the first block. -/
def serverSettings (conf : Option RadclockConfig) (ns : Nat) : List Item :=
  match conf with
  | some c =>
    if 0 < (c.timeServer.block 0).length then
      (List.range ns).flatMap fun s => setting .timeServer (c.timeServer.block s)
    else setting .timeServer "tock.une.edu.au".toList
  | none => setting .timeServer "tock.une.edu.au".toList

/-! ## The file -/

/-- The title and the part on the client side. -/
def clientPart (packageVersion : Text) (conf : Option RadclockConfig) (ns : Nat) :
    Option (List Item) := do
  let verbose ← optionSetting conf .verbose
  let synchroType ← optionSetting conf .synchroType
  let pollPeriod := conf.elim defaultPollPeriod fun c => c.pollPeriod
  pure <|
    comments
      ["#", "# This is the default configuration file for the RADclock", "#"] ++ [.blank] ++
    comments
      ["----------------------------------------------------------------------------#",
       " Package version. Do not modify this line."] ++
    [.setting (findKeyLabel .radclockVersion) packageVersion] ++
    comments ["----------------------------------------------------------------------------#"] ++
    [.blank, .blank] ++
    comments
      [" Verbosity level of the radclock daemon.",
       "\tquiet : only errors and warnings are logged",
       "\tnormal: adaptive logging of events",
       "\thigh  : include debug messages (is very high, expert use)"] ++
    verbose ++
    title " Synchronization Client parameters" ++
    comments
      [" Specify the type of underlying synchronization used.",
       " Note that piggybacking requires an ntp daemon running and is then",
       " incompatible with the RADclock serving clients over the network or ",
       " adjusting the system FBclock. Piggybacking disables these functions.",
       "\tpiggy   : piggybacking on running ntp daemon",
       "\tntp     : RADclock uses NTP protocol",
       "\tieee1588: RADclock uses IEEE 1588 protocol - NOT IMPLEMENTED YET",
       "\tpps     : RADclock listens to PPS - NOT IMPLEMENTED YET",
       "\tvm_udp  : RADclock communicates with master radclock for clock data over udp",
       "\txen     : RADclock communicates with master radclock for clock data over xenstore",
       "\tvmware  : RADclock communicates with master radclock for clock data over vmci"] ++
    synchroType ++
    comments
      [" The polling period specifies the time interval at which",
       " the requests for time are sent to the server (value in seconds)"] ++
    setting .pollPeriod (printInt pollPeriod.1.toInt) ++
    comments
      [" Hostname or IP address (uses lookup name resolution).",
       " Automatic detection will be attempted if not specified."] ++
    textSetting conf .hostname "platypus2.tklab.feit.uts.edu.au" ++
    comments
      [" Time server answering the requests from this client.",
       " Can be a host name or an IP address (uses lookup name resolution)."] ++
    serverSettings conf ns

/-- The part on the servers this daemon runs. -/
def serverPart (conf : Option RadclockConfig) : Option (List Item) := do
  let serverIpc ← optionSetting conf .serverIpc
  let serverVmUdp ← optionSetting conf .serverVmUdp
  let serverXen ← optionSetting conf .serverXen
  let serverVmware ← optionSetting conf .serverVmware
  let serverNtp ← optionSetting conf .serverNtp
  let adjustFFclock ← optionSetting conf .adjustFFclock
  let adjustFBclock ← optionSetting conf .adjustFBclock
  pure <|
    title " Synchronization Server parameters" ++
    comments
      [" IPC server.",
       " Serves time to the Shared Memory Segment for use by user radclocks.",
       "\ton : Start service - makes RADclock available to other programs",
       "\toff: Stop service  - useful when replaying traces"] ++
    serverIpc ++
    comments
      [" VM UDP server.",
       " Serves clock data to radclock clients over the network.",
       "\ton : runs a VM UDP server for guests",
       "\toff: no server running"] ++
    serverVmUdp ++
    comments
      [" File containing list of VM UDP clients in the case of VM UDP server",
       " Name or IP address of master radclock in the case of synctype = vm_udp"] ++
    textSetting conf .vmUdpList "vm_udp_list" ++
    comments
      [" XEN server.",
       " Serves clock data to radclock clients over the xenstore.",
       "\ton : runs a XEN server for guests",
       "\toff: no server running"] ++
    serverXen ++
    comments
      [" VMWARE server.",
       " Serves clock data to radclock clients over a VMCI socket.",
       "\ton : runs a VMWARE server for guests",
       "\toff: no server running"] ++
    serverVmware ++
    comments
      [" NTP server.",
       " Serves time to radclock clients over the network.",
       "\ton : runs a NTP server for remote clients",
       "\toff: no server running"] ++
    serverNtp ++
    comments
      [" System FFclock.",
       " Let the RADclock daemon adjust the system FFclock. The main usecase for disabling",
       " the push of radclock updates to the FFclock is to allow a second radclock",
       " to run (eg for experimental purposes) without competing with an",
       " existing radclock already operating as the FFclock's daemon.",
       "\ton : adjust the system FFclock",
       "\toff: does not adjust the FFclock"] ++
    adjustFFclock ++
    comments
      [" System FBclock.",
       " Let the RADclock adjust the system FBclock, make sure no other FB synchronization",
       " daemon is running, especially the ntp daemon.",
       " Note that this feature relies on standard kernel calls to adjust the time and",
       " is completely different from the IPC server provided. It is also independent ",
       " if the system FFclock functionality. This feature is essentially",
       " provided to maintain FB system time as an alternative to ntpd when the latter",
       " is causing problems, or when access to RADclock absolute time is needed on older",
       " systems whose calling code cannot be changes.",
       " If you care about synchronization, either use the FFclock, or turn the IPC",
       " server on and use the libradclock API.",
       " Also note that system clock time causality may break since the system clock will",
       " be set on RADclock restart. The system clock will tick monotonically afterwards.",
       "\ton : adjust the system FBclock",
       "\toff: does not adjust the FBclock (to use with NTP piggybacking)"] ++
    adjustFBclock

/-- The parts on tuning and on input and output. -/
def tuningPart (conf : Option RadclockConfig) : List Item :=
  let phatInit := conf.elim defaultPhatInit fun c => c.phatInit
  let asymHost := conf.elim defaultAsym fun c => c.asym .host
  let asymNet := conf.elim defaultAsym fun c => c.asym .net
  title " Environment and Tuning parameters" ++
  comments
    [" Temperature environment and hardware quality.",
     " Keywods accepted are: poor, good, excellent.",
     " This setting overrides temperature and hardware expert mode (default behavior). "] ++
  qualitySetting conf ++
  comments
    [" EXPERIMENTAL.",
     " Temperature environment and hardware quality - EXPERT.",
     " This settings are over-written by the temperature_quality keyword."] ++
  expertSettings conf ++
  comments
    [" For a quick start, the initial value of the period of the counter (in seconds). "] ++
  setting .phatInit (printGeneral phatInit.1) ++
  comments [" Estimation of the asym within the host (in seconds). "] ++
  setting (.asym .host) (printDouble 6 asymHost.1) ++
  comments [" Estimation of the network asym (in seconds). "] ++
  setting (.asym .net) (printDouble 6 asymNet.1) ++
  title " Input / Output parameters" ++
  comments
    [" Network interface.",
     " Specify a different interface (xl0, eth0, ...)",
     " If none, the RADclock will lookup for a default one."] ++
  textSetting conf .networkdev "em0" ++
  comments
    [" Synchronization data input file (modified pcap format).",
     " Replay mode requires a file produced by the RADclock."] ++
  textSetting conf .syncInPcap "/etc/sync_input.pcap" ++
  comments
    [" Synchronization data input file (ascii format).",
     " Replay mode requires a file produced by the RADclock."] ++
  textSetting conf .syncInAscii "/etc/sync_input.ascii" ++
  comments [" Synchronization data output file (modified pcap format)."] ++
  textSetting conf .syncOutPcap "/etc/sync_output.pcap" ++
  comments [" Synchronization data output file (ascii format)."] ++
  textSetting conf .syncOutAscii "/etc/sync_output.ascii" ++
  comments [" Internal clock data output file (ascii format)."] ++
  textSetting conf .clockOutAscii "/etc/clock_output.ascii"

/-- The lines of the file. -/
def configItems (packageVersion : Text) (conf : Option RadclockConfig) (ns : Nat) :
    Option (List Item) := do
  let client ← clientPart packageVersion conf ns
  let server ← serverPart conf
  pure (client ++ server ++ tuningPart conf)

/-- `write_config_file`. -/
def writeConfigFile (packageVersion : Text) (conf : Option RadclockConfig) (ns : Nat) :
    Option Text :=
  (configItems packageVersion conf ns).map fun items => items.flatMap Item.render

end RADclock.ConfigMgr
