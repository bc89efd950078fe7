import RADclock.Config.Write
import RADclock.Lib.Exec

/-!
# Reading the configuration file (`config_parse`)

The file is read line by line; a line `key = value` updates one field of the configuration and
sets the bit of the update mask that stands for it if the field changes. The events of a parse
are the copies of server names into the memory of `conf->time_server`.

- `readLines`: the lines `fgets` returns.
- `extractKeyValue`: the key and the value of a line. The source keeps one buffer for the key
  and does not terminate what it copies into it, so the buffer is part of the state, and a line
  without a separator is one it cannot read.
- `updateData`: one case for each key. `guarded` is the form most of them have.
- `configParse`: the loop, the trimming of the server memory, the update of an outdated file.
-/

namespace RADclock.ConfigMgr

open Lib

/-! ## Lines -/

/-- The lines that `fgets` returns with room for `max` characters; `cur` has been read of the
current one. -/
def readLines (max : Nat) (cur : Text) : Text → List Text
  | [] => if cur = [] then [] else [cur]
  | c :: t =>
    if c = '\n' ∨ (cur ++ [c]).length = max then (cur ++ [c]) :: readLines max [] t
    else readLines max (cur ++ [c]) t

/-- What is before the terminator of a string. -/
def cstring (t : Text) : Text := t.takeWhile (· ≠ '\x00')

/-- What `extract_key_value` makes of a line. -/
inductive Extracted where
  /-- Not a configuration line. -/
  | skip
  /-- The key buffer afterwards, the key in it, and the value. -/
  | entry (key label value : Text)
  /-- No separator, or no end of the key within its buffer: the source reads where it must
  not. -/
  | fault

def isTab (c : Char) : Bool := c = ' ' ∨ c = '\t'

def isBlank (c : Char) : Bool := c = ' ' ∨ c = '\t' ∨ c = '\n'

/-- The value, from the separator on. Trailing blanks are removed from the end backwards; when
there is nothing else the walk goes on to the separator, and cuts the text there. -/
def extractValue (c : Text) : Text :=
  let skipped := c.takeWhile fun ch => ch = '=' ∨ isTab ch
  let value := (c.dropWhile fun ch => ch = '=' ∨ isTab ch).takeWhile (· ≠ '#')
  let trimmed := value.rdropWhile isBlank
  if trimmed ≠ [] then trimmed
  else if skipped.getLast? = some '=' then []
  else value

/-- `extract_key_value`, with the contents of the key buffer before. -/
def extractKeyValue (key line : Text) : Extracted :=
  let c := line.dropWhile isTab
  if c.head?.all (fun ch => ch = '#' ∨ ch = '\n') then .skip
  else if '=' ∉ c then .fault
  else
    let before := c.takeWhile (· ≠ '=')
    let key := before ++ key.drop before.length
    let label := key.takeWhile fun ch => !isBlank ch
    if label.length = key.length then .fault
    else
      .entry (label ++ '\x00' :: key.drop (label.length + 1)) (cstring label)
        (extractValue (c.dropWhile (· ≠ '=')))

/-! ## Updates -/

/-- A copy of a server name: where it starts, how many bytes it takes, and how many are
allocated then. -/
structure ServerWrite where
  offset : Nat
  length : Nat
  size : Nat
deriving DecidableEq, Repr

/-- What `config_parse` works on; `nf` counts the time servers found. -/
structure ParseState where
  conf : RadclockConfig
  mask : UInt32
  nf : Nat
  haveAllTmpqual : Bool

/-- The bit, if the value differs. -/
def mark (mask : UInt32) (b : Bit) (differs : Bool) : UInt32 :=
  if differs then setUpdate mask b else mask

/-- A case of `update_data`: a value given on the command line (or by an earlier line that
changed it) is kept; otherwise the bit is set if the value read differs, and the field gets its
new value. -/
def guarded (b : Bit) (differs : Bool) (conf : RadclockConfig) (st : ParseState) : ParseState :=
  if isSet st.mask b then st else { st with mask := mark st.mask b differs, conf := conf }

/-- The fields with labels: `CONFIG_VERBOSE`, `CONFIG_SERVER_IPC`, `CONFIG_SYNCHRO_TYPE`, .. -/
def optionCase (k : OptionKey) (st : ParseState) (value : Text) : ParseState :=
  let ival := checkValidOption value k.labels
  guarded (.option k) ((st.conf.option k : Int) ≠ ival)
    { st.conf with
      option := Function.update st.conf.option k (if ival < 0 then k.default else ival.toNat) } st

/-- `CONFIG_POLLPERIOD`. -/
def pollPeriodCase (st : ParseState) (value : Text) : ParseState :=
  let ival := atoi value
  guarded .pollPeriod (st.conf.pollPeriod.1 ≠ ival)
    { st.conf with
      pollPeriod := if h : 1 ≤ ival.toInt ∧ ival.toInt ≤ 1024 then ⟨ival, h⟩
        else defaultPollPeriod } st

/-- `CONFIG_ASYM_HOST` and `CONFIG_ASYM_NET`. -/
def asymCase (k : AsymKey) (st : ParseState) (value : Text) : ParseState :=
  let dval := strtod value
  guarded (.asym k) ((st.conf.asym k).1 != dval)
    { st.conf with
      asym := Function.update st.conf.asym k
        (if h : dval < 0.0 ∨ 1.0 < dval then defaultAsym else ⟨dval, h⟩) } st

/-- `CONFIG_HOSTNAME`, `CONFIG_NETWORKDEV` and the other texts. -/
def textCase (k : TextKey) (st : ParseState) (value : Text) : ParseState :=
  guarded (.text k) (st.conf.text k ≠ value)
    { st.conf with text := Function.update st.conf.text k value } st

/-- `CONFIG_TSLIMIT` and the other metaparameters that are numbers: not after a keyword. -/
def scaleCase (k : ScaleKey) (st : ParseState) (value : Text) : ParseState :=
  if st.haveAllTmpqual then st
  else
    let dval := strtod value
    { st with
      mask := mark st.mask .tempQuality ((st.conf.scale k).1 != dval)
      conf := { st.conf with
        scale := Function.update st.conf.scale k
          (if h : dval < 0.0 then Quality.good.scale k else ⟨dval, h⟩) } }

/-- `CONFIG_OFFSET_RATIO`. -/
def offsetRatioCase (st : ParseState) (value : Text) : ParseState :=
  if st.haveAllTmpqual then st
  else
    let ival := atoi value
    { st with
      mask := mark st.mask .tempQuality (st.conf.offsetRatio.1 ≠ ival)
      conf := { st.conf with
        offsetRatio := if h : 0 < ival.toInt then ⟨ival, h⟩ else Quality.good.offsetRatio } }

/-- `CONFIG_TEMPQUALITY`: a keyword sets all six, and compares the first. -/
def tempQualityCase (st : ParseState) (value : Text) : ParseState :=
  match findQuality value with
  | none => { st with haveAllTmpqual := true }
  | some q =>
    { st with
      haveAllTmpqual := true
      mask := mark st.mask .tempQuality
        ((st.conf.scale .tslimit).1 - (q.scale .tslimit).1 != 0.0)
      conf := { st.conf with scale := q.scale, offsetRatio := q.offsetRatio } }

/-- `CONFIG_PHAT_INIT`. -/
def phatInitCase (st : ParseState) (value : Text) : ParseState :=
  let dval := strtod value
  { st with
    conf := { st.conf with
      phatInit := if h : dval < 0.0 ∨ dval == 0.0 ∨ 1.0 < dval then defaultPhatInit
        else ⟨dval, h⟩ } }

/-- The cases that do not touch the memory of the time servers. -/
def updateField (st : ParseState) (codekey : Key) (value : Text) : ParseState :=
  match codekey with
  | .radclockVersion => { st with conf := { st.conf with radclockVersion := value } }
  | .option k => optionCase k st value
  | .pollPeriod => pollPeriodCase st value
  | .tempQuality => tempQualityCase st value
  | .scale k => scaleCase k st value
  | .offsetRatio => offsetRatioCase st value
  | .phatInit => phatInitCase st value
  | .asym k => asymCase k st value
  | .text k => textCase k st value
  | .unknown | .timeServer => st

/-- `strcpy` of a name into the `i`-th block. -/
def copyServer (mem : ServerMem) (i : Nat) (value : Text) : Exec ServerWrite ServerMem := do
  Exec.emit ⟨i * MAXLINE, value.length + 1, mem.size⟩
  pure { mem with block := Function.update mem.block i value }

/-- `CONFIG_TIME_SERVER`; `ns` is the number of servers of the previous parse. -/
def timeServerCase (ns : Nat) (st : ParseState) (value : Text) :
    Exec ServerWrite ParseState := do
  if st.nf = 0 ∧ isSet st.mask .timeServer then
    pure { st with nf := 1 }
  else if ns = 0 ∨ st.nf < ns then
    let mask := mark st.mask .timeServer (st.conf.timeServer.block st.nf ≠ value)
    let mem ← copyServer st.conf.timeServer st.nf value
    pure { st with mask := mask, conf := { st.conf with timeServer := mem }, nf := st.nf + 1 }
  else
    let mem ← copyServer { st.conf.timeServer with size := (st.nf + 1) * MAXLINE } st.nf value
    pure { st with
      mask := setUpdate st.mask .timeServer
      conf := { st.conf with timeServer := mem }
      nf := st.nf + 1 }

/-- `update_data`, on a value that is not empty. -/
def updateData (ns : Nat) (st : ParseState) (codekey : Key) (value : Text) :
    Exec ServerWrite ParseState :=
  match codekey with
  | .timeServer => timeServerCase ns st value
  | codekey => pure (updateField st codekey value)

/-! ## The parse -/

/-- The loop of `config_parse` over the lines of the file. -/
def parseLines (ns : Nat) : Text → List Text → ParseState → Exec ServerWrite ParseState
  | _, [], st => pure st
  | key, line :: lines, st =>
    match extractKeyValue key (cstring line) with
    | .skip => parseLines ns key lines st
    | .fault => Exec.halt
    | .entry key label value => do
      let st ← if value = [] then pure st else updateData ns st (matchKey label) value
      parseLines ns key lines st

/-- The configuration file: its text, if it is there and can be read, and whether it can be
written. -/
structure ConfFile where
  text : Option Text
  writable : Bool

/-- What `config_parse` returns and leaves behind. -/
structure Parsed where
  ok : Bool
  conf : RadclockConfig
  mask : UInt32
  ns : Nat
  file : Option Text

/-- A daemon has no other input than a live device. -/
def liveInput (isDaemon : Bool) (conf : RadclockConfig) : RadclockConfig :=
  if isDaemon then
    { conf with
      text := Function.update (Function.update conf.text .syncInAscii []) .syncInPcap [] }
  else conf

/-! A live input touches the texts only. -/

section
variable (isDaemon : Bool) (conf : RadclockConfig)

@[simp] theorem liveInput_radclockVersion :
    (liveInput isDaemon conf).radclockVersion = conf.radclockVersion := by
  cases isDaemon <;> rfl

@[simp] theorem liveInput_option : (liveInput isDaemon conf).option = conf.option := by
  cases isDaemon <;> rfl

@[simp] theorem liveInput_pollPeriod :
    (liveInput isDaemon conf).pollPeriod = conf.pollPeriod := by
  cases isDaemon <;> rfl

@[simp] theorem liveInput_phatInit : (liveInput isDaemon conf).phatInit = conf.phatInit := by
  cases isDaemon <;> rfl

@[simp] theorem liveInput_asym : (liveInput isDaemon conf).asym = conf.asym := by
  cases isDaemon <;> rfl

@[simp] theorem liveInput_timeServer :
    (liveInput isDaemon conf).timeServer = conf.timeServer := by
  cases isDaemon <;> rfl

/-- A daemon has no input file. -/
theorem liveInput_text (k : TextKey) :
    (liveInput isDaemon conf).text k =
      if isDaemon = true ∧ (k = .syncInAscii ∨ k = .syncInPcap) then [] else conf.text k := by
  cases isDaemon with
  | false => simp [liveInput]
  | true => cases k <;> simp [liveInput, Function.update]

end

/-- `realloc` of the server memory to what was found, if that is less. -/
def trimServers (ns nf : Nat) (conf : RadclockConfig) : RadclockConfig :=
  if nf < ns then { conf with timeServer := { conf.timeServer with size := nf * MAXLINE } }
  else conf

/-- `config_parse`. `key` is what the key buffer holds when the function is entered. -/
def configParse (packageVersion key : Text) (isDaemon : Bool) (file : ConfFile)
    (conf : RadclockConfig) (mask : UInt32) (ns : Nat) : Exec ServerWrite Parsed :=
  match file.text with
  | none =>
    -- A default file is written, but not read.
    if file.writable then
      pure ⟨true, conf, mask, 1, writeConfigFile packageVersion none 1⟩
    else pure ⟨false, conf, mask, ns, none⟩
  | some text => do
    let st ← parseLines ns key (readLines (MAXLINE - 1) [] text) ⟨conf, mask, 0, false⟩
    let conf := trimServers ns st.nf st.conf
    if conf.radclockVersion = packageVersion then
      pure ⟨true, liveInput isDaemon conf, st.mask, st.nf, file.text⟩
    else if file.writable then do
      let text ← Exec.deref (writeConfigFile packageVersion (some conf) st.nf)
      pure ⟨true, liveInput isDaemon { conf with radclockVersion := packageVersion }, st.mask,
        st.nf, some text⟩
    else pure ⟨false, conf, st.mask, st.nf, file.text⟩

/-- A key buffer of zero bytes. -/
def blankKey : Text := List.replicate MAXLINE '\x00'

/-! ## Entries

What the parse does to the configuration depends on the file only through its keys and values. -/

/-- The keys and values of the lines, up to the first line that cannot be read, and whether
there is none. -/
def entries : Text → List Text → List (Key × Text) × Bool
  | _, [] => ([], true)
  | key, line :: lines =>
    match extractKeyValue key (cstring line) with
    | .skip => entries key lines
    | .fault => ([], false)
    | .entry key label value =>
      let (es, ok) := entries key lines
      (if value = [] then es else (matchKey label, value) :: es, ok)

/-- `update_data` for one entry after the other. -/
def applyEntries (ns : Nat) : List (Key × Text) → ParseState → Exec ServerWrite ParseState
  | [], st => pure st
  | e :: es, st => do
    let st ← updateData ns st e.1 e.2
    applyEntries ns es st

theorem parseLines_eq (ns : Nat) (lines : List Text) :
    ∀ key st, parseLines ns key lines st =
      (applyEntries ns (entries key lines).1 st >>= fun st =>
        if (entries key lines).2 then pure st else Exec.halt) := by
  induction lines with
  | nil =>
    intro key st
    rfl
  | cons line lines ih =>
    intro key st
    rw [parseLines, entries]
    cases extractKeyValue key (cstring line) with
    | skip => exact ih key st
    | fault => rfl
    | entry key label value =>
      by_cases hv : value = []
      · simp only [hv, if_true, pure_bind]
        exact ih key st
      · simp only [hv, if_false, applyEntries, bind_assoc]
        exact congrArg _ (funext fun st => ih key st)

/-! ## States

The state after an entry, apart from the copies that are made on the way. -/

/-- The state after `CONFIG_TIME_SERVER`. -/
def serverState (ns : Nat) (st : ParseState) (value : Text) : ParseState :=
  if st.nf = 0 ∧ isSet st.mask .timeServer then { st with nf := 1 }
  else
    { st with
      mask := mark st.mask .timeServer
        ((ns ≠ 0 ∧ ns ≤ st.nf) ∨ st.conf.timeServer.block st.nf ≠ value)
      conf := { st.conf with
        timeServer :=
          { size := if ns = 0 ∨ st.nf < ns then st.conf.timeServer.size
              else (st.nf + 1) * MAXLINE
            block := Function.update st.conf.timeServer.block st.nf value } }
      nf := st.nf + 1 }

def updateState (ns : Nat) (st : ParseState) (codekey : Key) (value : Text) : ParseState :=
  match codekey with
  | .timeServer => serverState ns st value
  | codekey => updateField st codekey value

theorem timeServerCase_res (ns : Nat) (st : ParseState) (value : Text) :
    (timeServerCase ns st value).res = some (serverState ns st value) := by
  unfold timeServerCase serverState
  by_cases h : st.nf = 0 ∧ isSet st.mask .timeServer
  · rw [if_pos h, if_pos h]
    rfl
  · rw [if_neg h, if_neg h]
    by_cases hns : ns = 0 ∨ st.nf < ns
    · have hroom : ¬ (ns ≠ 0 ∧ ns ≤ st.nf) := by omega
      rw [if_pos hns, if_pos hns]
      simp only [hroom, false_or]
      rfl
    · have hroom : ns ≠ 0 ∧ ns ≤ st.nf := by omega
      rw [if_neg hns, if_neg hns]
      simp only [hroom, ne_eq, not_false_eq_true, and_self, true_or, decide_true, mark, if_true]
      rfl

theorem updateData_res (ns : Nat) (st : ParseState) (codekey : Key) (value : Text) :
    (updateData ns st codekey value).res = some (updateState ns st codekey value) := by
  cases codekey with
  | timeServer => exact timeServerCase_res ns st value
  | _ => rfl

/-- The state after a list of entries. -/
def applied (ns : Nat) (es : List (Key × Text)) (st : ParseState) : ParseState :=
  es.foldl (fun st e => updateState ns st e.1 e.2) st

theorem applyEntries_res (ns : Nat) (es : List (Key × Text)) :
    ∀ st, (applyEntries ns es st).res = some (applied ns es st) := by
  induction es with
  | nil => exact fun st => rfl
  | cons e es ih =>
    intro st
    show (Exec.bind (updateData ns st e.1 e.2) (applyEntries ns es)).res = _
    rw [Exec.bind, updateData_res]
    exact ih (updateState ns st e.1 e.2)

/-- The state that the lines of a file lead to. -/
def parsedState (ns : Nat) (key text : Text) (conf : RadclockConfig) (mask : UInt32) : ParseState :=
  applied ns (entries key (readLines (MAXLINE - 1) [] text)).1 ⟨conf, mask, 0, false⟩

theorem parseLines_res {ns : Nat} {key : Text} {lines : List Text} {st st' : ParseState}
    (h : (parseLines ns key lines st).res = some st') :
    (entries key lines).2 = true ∧ st' = applied ns (entries key lines).1 st := by
  rw [parseLines_eq] at h
  change (Exec.bind _ _).res = some st' at h
  rw [Exec.bind, applyEntries_res] at h
  cases hok : (entries key lines).2 with
  | false =>
    rw [hok] at h
    cases h
  | true =>
    rw [hok] at h
    cases h
    exact ⟨rfl, rfl⟩

/-- The configuration after the last line has been read. -/
def finished (packageVersion : Text) (isDaemon writable : Bool) (ns : Nat) (st : ParseState) :
    RadclockConfig :=
  let conf := trimServers ns st.nf st.conf
  if conf.radclockVersion = packageVersion then liveInput isDaemon conf
  else if writable then liveInput isDaemon { conf with radclockVersion := packageVersion }
  else conf

/-- What a parse that returns has read and leaves behind. -/
theorem configParse_res {packageVersion key text : Text} {isDaemon writable : Bool}
    {conf : RadclockConfig} {mask : UInt32} {ns : Nat} {p : Parsed}
    (h : (configParse packageVersion key isDaemon ⟨some text, writable⟩ conf mask ns).res
      = some p) :
    (entries key (readLines (MAXLINE - 1) [] text)).2 = true ∧
    p.mask = (parsedState ns key text conf mask).mask ∧
    p.ns = (parsedState ns key text conf mask).nf ∧
    p.conf = finished packageVersion isDaemon writable ns (parsedState ns key text conf mask) := by
  unfold configParse at h
  simp only at h
  change (Exec.bind _ _).res = some p at h
  rw [Exec.bind] at h
  -- a parse that returns has read every line
  cases hst : (parseLines ns key (readLines (MAXLINE - 1) [] text) ⟨conf, mask, 0, false⟩).res with
  | none =>
    rw [hst] at h
    cases h
  | some st =>
    obtain ⟨hok, heq⟩ := parseLines_res hst
    rw [show parsedState ns key text conf mask = st from heq.symm]
    rw [hst] at h
    refine ⟨hok, ?_⟩
    change (ite _ _ _ : Exec ServerWrite Parsed).res = some p at h
    change _ ∧ _ ∧ p.conf = ite _ _ _
    -- then an outdated file is rewritten, where it can be
    split_ifs at h ⊢ with hver hwrite
    · cases h
      exact ⟨rfl, rfl, rfl⟩
    · change (Exec.bind _ _).res = some p at h
      rw [Exec.bind] at h
      cases hw : (Exec.deref (writeConfigFile packageVersion
          (some (trimServers ns st.nf st.conf)) st.nf) : Exec ServerWrite Text).res with
      | none =>
        rw [hw] at h
        cases h
      | some t =>
        rw [hw] at h
        cases h
        exact ⟨rfl, rfl, rfl⟩
    · cases h
      exact ⟨rfl, rfl, rfl⟩

end RADclock.ConfigMgr
