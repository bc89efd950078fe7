import RADclock.Config.Parse
import RADclock.Lib.Double

/-!
# What the update mask says

After a parse the rest of the daemon acts on the bits of the update mask, and the algorithm
recomputes its parameters only when it is told that they changed. A bit should be set exactly
when a field that it stands for has another value than before.

Each key compares, marks and assigns in its own way:

- most compare the value read with the field, then replace a value out of range by the default,
  so the bit is set although the default was already there;
- a keyword for the temperature environment sets six metaparameters and compares one, which is
  the same for all keywords;
- the time servers are compared as far as the new list goes, so a shorter list is not noticed;
- a daemon drops input files after they have been compared.

`Tells` is, bit by bit, what a file and the configuration before it must satisfy for the bit to
be right, and `mask_tells_iff` says that it is necessary too.
-/

namespace RADclock.ConfigMgr

open Lib

/-! ## Changes -/

/-- The names of the time servers. -/
def serverNames (conf : RadclockConfig) (ns : Nat) : List Text :=
  (List.range ns).map conf.timeServer.block

/-- The metaparameters that the file can set. -/
structure Temp where
  scale : ScaleKey → Scale
  offsetRatio : OffsetRatio

def RadclockConfig.temp (conf : RadclockConfig) : Temp := ⟨conf.scale, conf.offsetRatio⟩

def Quality.temp (q : Quality) : Temp := ⟨q.scale, q.offsetRatio⟩

/-- The same metaparameters, as numbers. -/
structure Temp.Same (m m' : Temp) : Prop where
  scale : ∀ k, SameNumber (m.scale k).1 (m'.scale k).1
  offsetRatio : m.offsetRatio.1 = m'.offsetRatio.1

theorem Temp.Same.refl (m : Temp) : m.Same m := ⟨fun _ => .refl _, rfl⟩

/-- The same either way round. -/
theorem Temp.Same.symm {m m' : Temp} (h : m.Same m') : m'.Same m :=
  ⟨fun k => (h.scale k).symm, h.offsetRatio.symm⟩

/-- And through a third. -/
theorem Temp.Same.trans {m m' m'' : Temp} (h : m.Same m') (h' : m'.Same m'') : m.Same m'' :=
  ⟨fun k => (h.scale k).trans (h'.scale k), h.offsetRatio.trans h'.offsetRatio⟩

/-- Some field that the bit stands for has another value. -/
def Changed (old new : RadclockConfig) (ns ns' : Nat) : Bit → Prop
  | .pollPeriod => old.pollPeriod.1 ≠ new.pollPeriod.1
  | .tempQuality => ¬ old.temp.Same new.temp
  | .asym k => ¬ SameNumber (old.asym k).1 (new.asym k).1
  | .option k => old.option k ≠ new.option k
  | .text k => old.text k ≠ new.text k
  | .timeServer => serverNames old ns ≠ serverNames new ns'

/-! ## Slots

A field with a bit of its own: the first line of its key whose value differs sets both, and the
lines after it are ignored. -/

/-- When a line differs from the field, what it makes of it, and when that is a change. -/
structure Slot (α : Type) where
  differs : α → Text → Bool
  new : Text → α
  same : α → α → Prop

namespace Slot

variable {α : Type} (s : Slot α)

/-- One line of the key, on the bit and the field. -/
def step (p : Bool × α) (v : Text) : Bool × α := if p.1 then p else (s.differs p.2 v, s.new v)

/-- The first line that differs leaves another value than the old one. -/
def Tells (old : α) (vs : List Text) : Prop := ∀ v ∈ vs.find? (s.differs old),
    ¬ s.same old (s.new v)

/-- A line that does not differ leaves a field that no line can tell from the old one. -/
structure Lawful : Prop where
  refl : ∀ a, s.same a a
  same : ∀ a v, s.differs a v = false → s.differs (s.new v) = s.differs a ∧ s.same a (s.new v)

variable {s}

/-- Once the bit is set, the lines that come are ignored. -/
theorem run_marked (vs : List Text) (a : α) : vs.foldl s.step (true, a) = (true, a) := by
  induction vs with
  | nil => rfl
  | cons v vs ih => exact ih

/-- Lines of which none differs leave the bit clear and the value the same. -/
theorem run_none (hs : s.Lawful) {old : α} (vs : List Text) :
    ∀ a, s.differs a = s.differs old → s.same old a → vs.find? (s.differs old) = none →
      (vs.foldl s.step (false, a)).1 = false ∧ s.same old (vs.foldl s.step (false, a)).2 := by
  induction vs with
  | nil => exact fun a _ hsame _ => ⟨rfl, hsame⟩
  | cons v vs ih =>
    intro a ha hsame hnone
    -- the lines compare as they do with the old value
    have hv : s.differs old v = false := by
      simpa using List.find?_eq_none.mp hnone v List.mem_cons_self
    have htail : vs.find? (s.differs old) = none :=
      List.find?_eq_none.mpr fun w hw =>
        List.find?_eq_none.mp hnone w (List.mem_cons_of_mem _ hw)
    obtain ⟨hnew, hnewSame⟩ := hs.same old v hv
    have hstep : s.step (false, a) v = (false, s.new v) := by
      simp [step, ha, hv]
    rw [List.foldl_cons, hstep]
    exact ih (s.new v) hnew hnewSame htail

/-- The first line that differs sets the bit and gives the value. -/
theorem run_some (hs : s.Lawful) {old : α} {v : Text} (vs : List Text) :
    ∀ a, s.differs a = s.differs old → vs.find? (s.differs old) = some v →
      vs.foldl s.step (false, a) = (true, s.new v) := by
  induction vs with
  | nil =>
    intro a _ hsome
    cases hsome
  | cons w vs ih =>
    intro a ha hsome
    rw [List.foldl_cons]
    cases hw : s.differs old w with
    | true =>
      have hwv : w = v := by simpa [List.find?_cons, hw] using hsome
      subst hwv
      have hstep : s.step (false, a) w = (true, s.new w) := by simp [step, ha, hw]
      rw [hstep, run_marked]
    | false =>
      rw [List.find?_cons, hw] at hsome
      have hstep : s.step (false, a) w = (false, s.new w) := by simp [step, ha, hw]
      rw [hstep]
      exact ih (s.new w) (hs.same old w hw).1 hsome

/-- The bit is right exactly when the first line that differs leaves another value. -/
theorem tells_iff (hs : s.Lawful) (old : α) (vs : List Text) :
    ((vs.foldl s.step (false, old)).1 = true ↔ ¬ s.same old (vs.foldl s.step (false, old)).2) ↔
      s.Tells old vs := by
  unfold Tells
  cases hfind : vs.find? (s.differs old) with
  | none =>
    obtain ⟨hbit, hsame⟩ := run_none hs vs old rfl (hs.refl old) hfind
    simp [hbit, hsame]
  | some v =>
    rw [run_some hs vs old rfl hfind]
    simp

/-- The bit is set exactly when some line differs. -/
theorem marked_iff (hs : s.Lawful) (old : α) (vs : List Text) :
    (vs.foldl s.step (false, old)).1 = true ↔ ∃ v ∈ vs, s.differs old v = true := by
  cases hfind : vs.find? (s.differs old) with
  | none =>
    rw [(run_none hs vs old rfl (hs.refl old) hfind).1]
    simpa using List.find?_eq_none.mp hfind
  | some v =>
    rw [run_some hs vs old rfl hfind]
    simp only [true_iff]
    exact ⟨v, List.mem_of_find?_eq_some hfind, List.find?_some hfind⟩

end Slot

/-- `CONFIG_VERBOSE`, `CONFIG_SERVER_IPC`, .. -/
def optionSlot (k : OptionKey) : Slot Nat where
  differs old v := (old : Int) ≠ checkValidOption v k.labels
  new v := if checkValidOption v k.labels < 0 then k.default
    else (checkValidOption v k.labels).toNat
  same old new := old = new

/-- `CONFIG_POLLPERIOD`. -/
def pollPeriodSlot : Slot PollPeriod where
  differs old v := old.1 ≠ atoi v
  new v := if h : 1 ≤ (atoi v).toInt ∧ (atoi v).toInt ≤ 1024 then ⟨atoi v, h⟩
    else defaultPollPeriod
  same old new := old.1 = new.1

/-- `CONFIG_ASYM_HOST`, `CONFIG_ASYM_NET`. -/
def asymSlot : Slot Asym where
  differs old v := old.1 != strtod v
  new v := if h : strtod v < 0.0 ∨ 1.0 < strtod v then defaultAsym else ⟨strtod v, h⟩
  same old new := SameNumber old.1 new.1

/-- `CONFIG_HOSTNAME`, .. -/
def textSlot : Slot Text where
  differs old v := old ≠ v
  new v := v
  same old new := old = new

/-- Options are compared as numbers. -/
theorem optionSlot_lawful (k : OptionKey) : (optionSlot k).Lawful where
  refl _ := rfl
  same a v h := by
    have heq : (a : Int) = checkValidOption v k.labels := by simpa [optionSlot] using h
    have hnew : (optionSlot k).new v = a := by
      simp only [optionSlot, ← heq]
      rw [if_neg (by omega), Int.toNat_natCast]
    rw [hnew]
    exact ⟨rfl, rfl⟩

/-- A polling period that does not differ is in its range. -/
theorem pollPeriodSlot_lawful : pollPeriodSlot.Lawful where
  refl _ := rfl
  same a v h := by
    have heq : a.1 = atoi v := by simpa [pollPeriodSlot] using h
    have hnew : pollPeriodSlot.new v = a := by
      have hrange : 1 ≤ (atoi v).toInt ∧ (atoi v).toInt ≤ 1024 := heq ▸ a.2
      exact (dif_pos hrange).trans (Subtype.ext heq.symm)
    rw [hnew]
    exact ⟨rfl, rfl⟩

/-- An asymmetry that does not differ is in its range. -/
theorem asymSlot_lawful : asymSlot.Lawful where
  refl a := .refl a.1
  same a v h := by
    have heq : (a.1 == strtod v) = true := by
      have h' : (a.1 != strtod v) = false := h
      rwa [bne, Bool.not_eq_false'] at h'
    have hrange : ¬ (strtod v < 0.0 ∨ 1.0 < strtod v) := by
      rw [← Float.lt_congr_left heq, ← Float.lt_congr_right heq]
      exact a.2
    have hnew : asymSlot.new v = ⟨strtod v, hrange⟩ := dif_neg hrange
    rw [hnew]
    exact ⟨funext fun w => (Float.bne_congr heq (strtod w)).symm, .inr heq⟩

theorem textSlot_lawful : textSlot.Lawful where
  refl _ := rfl
  same a v h := by
    have heq : a = v := by simpa [textSlot] using h
    rw [heq]
    exact ⟨rfl, rfl⟩

/-! ## What one line touches -/

/-- The bit that a line of a key can set. -/
def Key.bit : Key → Option Bit
  | .unknown | .radclockVersion | .phatInit => none
  | .option k => some (.option k)
  | .pollPeriod => some .pollPeriod
  | .tempQuality | .scale _ | .offsetRatio => some .tempQuality
  | .asym k => some (.asym k)
  | .text k => some (.text k)
  | .timeServer => some .timeServer

/-- Marking sets one bit, if the value differs. -/
theorem isSet_mark (mask : UInt32) (b b' : Bit) (differs : Bool) :
    isSet (mark mask b differs) b' = ((differs && decide (b = b')) || isSet mask b') := by
  unfold mark
  cases differs with
  | false => simp
  | true => simp [isSet_setUpdate]

/-- The other bits stay. -/
theorem isSet_mark_of_ne {b b' : Bit} (h : b ≠ b') (mask : UInt32) (differs : Bool) :
    isSet (mark mask b differs) b' = isSet mask b' := by
  simp [isSet_mark, h]

/-- A guarded field touches no other bit. -/
theorem isSet_guarded_of_ne {b b' : Bit} (h : b ≠ b') (differs : Bool) (conf : RadclockConfig)
    (st : ParseState) : isSet (guarded b differs conf st).mask b' = isSet st.mask b' := by
  unfold guarded
  split
  · rfl
  · exact isSet_mark_of_ne h st.mask differs

/-- A line leaves the other bits alone. -/
theorem isSet_updateState {b : Bit} {k : Key} (h : k.bit ≠ some b) (ns : Nat) (st : ParseState)
    (v : Text) : isSet (updateState ns st k v).mask b = isSet st.mask b := by
  have hne : ∀ b', k.bit = some b' → b' ≠ b := fun b' hb' heq => h (heq ▸ hb')
  cases k with
  | option k => exact isSet_guarded_of_ne (hne _ rfl) _ _ st
  | pollPeriod => exact isSet_guarded_of_ne (hne _ rfl) _ _ st
  | asym k => exact isSet_guarded_of_ne (hne _ rfl) _ _ st
  | text k => exact isSet_guarded_of_ne (hne _ rfl) _ _ st
  | scale k =>
    simp only [updateState, updateField, scaleCase]
    split
    · rfl
    · exact isSet_mark_of_ne (hne _ rfl) st.mask _
  | offsetRatio =>
    simp only [updateState, updateField, offsetRatioCase]
    split
    · rfl
    · exact isSet_mark_of_ne (hne _ rfl) st.mask _
  | tempQuality =>
    simp only [updateState, updateField, tempQualityCase]
    cases findQuality v with
    | none => rfl
    | some q => exact isSet_mark_of_ne (hne _ rfl) st.mask _
  | timeServer =>
    simp only [updateState, serverState]
    split
    · rfl
    · exact isSet_mark_of_ne (hne _ rfl) st.mask _
  | _ => rfl

/-- A line leaves the fields of other bits alone. -/
theorem updateState_frame (ns : Nat) (st : ParseState) (k : Key) (v : Text) :
    (∀ j, k.bit ≠ some (.option j) →
      (updateState ns st k v).conf.option j = st.conf.option j) ∧
    (k.bit ≠ some .pollPeriod → (updateState ns st k v).conf.pollPeriod = st.conf.pollPeriod) ∧
    (∀ j, k.bit ≠ some (.asym j) → (updateState ns st k v).conf.asym j = st.conf.asym j) ∧
    (∀ j, k.bit ≠ some (.text j) → (updateState ns st k v).conf.text j = st.conf.text j) ∧
    (k.bit ≠ some .tempQuality → (updateState ns st k v).conf.temp = st.conf.temp) ∧
    (k.bit ≠ some .timeServer →
      (updateState ns st k v).conf.timeServer = st.conf.timeServer ∧
      (updateState ns st k v).nf = st.nf) := by
  cases k with
  | option k =>
    simp only [updateState, updateField, optionCase, guarded, Key.bit]
    split
    · simp
    · refine ⟨fun j hj => ?_, ?_⟩
      · exact Function.update_of_ne (fun heq => hj (by rw [heq])) _ _
      · simp [RadclockConfig.temp]
  | pollPeriod =>
    simp only [updateState, updateField, pollPeriodCase, guarded, Key.bit]
    split <;> simp [RadclockConfig.temp]
  | asym k =>
    simp only [updateState, updateField, asymCase, guarded, Key.bit]
    split
    · simp
    · refine ⟨by simp, by simp, fun j hj => ?_, by simp [RadclockConfig.temp]⟩
      exact Function.update_of_ne (fun heq => hj (by rw [heq])) _ _
  | text k =>
    simp only [updateState, updateField, textCase, guarded, Key.bit]
    split
    · simp
    · refine ⟨by simp, by simp, by simp, fun j hj => ?_, by simp [RadclockConfig.temp]⟩
      exact Function.update_of_ne (fun heq => hj (by rw [heq])) _ _
  | scale k =>
    simp only [updateState, updateField, scaleCase, Key.bit]
    split <;> simp
  | offsetRatio =>
    simp only [updateState, updateField, offsetRatioCase, Key.bit]
    split <;> simp
  | tempQuality =>
    simp only [updateState, updateField, tempQualityCase, Key.bit]
    cases findQuality v <;> simp
  | timeServer =>
    simp only [updateState, serverState, Key.bit]
    split <;> simp [RadclockConfig.temp]
  | _ => simp [updateState, updateField, phatInitCase, RadclockConfig.temp]

/-! ## Whole files -/

/-- The values of the lines of a key. -/
def valuesOf (key : Key) (es : List (Key × Text)) : List Text :=
  es.filterMap fun e => if e.1 = key then some e.2 else none

/-- A slot sees the lines of its key, one after the other. -/
theorem applied_slot {α : Type} (s : Slot α) {b : Bit} {key : Key} (get : RadclockConfig → α)
    (hown : ∀ ns st v, (isSet (updateState ns st key v).mask b,
      get (updateState ns st key v).conf) = s.step (isSet st.mask b, get st.conf) v)
    (hother : ∀ ns st k v, k ≠ key → k.bit ≠ some b ∧
      get (updateState ns st k v).conf = get st.conf) (ns : Nat) (es : List (Key × Text)) :
    ∀ st, (isSet (applied ns es st).mask b, get (applied ns es st).conf) =
      (valuesOf key es).foldl s.step (isSet st.mask b, get st.conf) := by
  induction es with
  | nil => exact fun st => rfl
  | cons e es ih =>
    intro st
    obtain ⟨k, v⟩ := e
    rw [show applied ns ((k, v) :: es) st = applied ns es (updateState ns st k v) from rfl, ih]
    by_cases hk : k = key
    · subst hk
      rw [hown]
      simp [valuesOf]
    · obtain ⟨hbit, hget⟩ := hother ns st k v hk
      rw [isSet_updateState hbit, hget]
      simp [valuesOf, hk]

/-- A guarded case is a step of its slot. -/
theorem guarded_step {α : Type} (s : Slot α) (b : Bit) (differs : Bool) (conf : RadclockConfig)
    (st : ParseState) (get : RadclockConfig → α) (v : Text)
    (hdiffers : differs = s.differs (get st.conf) v) (hget : get conf = s.new v) :
    (isSet (guarded b differs conf st).mask b, get (guarded b differs conf st).conf) =
      s.step (isSet st.mask b, get st.conf) v := by
  unfold guarded Slot.step
  cases hset : isSet st.mask b with
  | true => simp [hset]
  | false => simp [hset, isSet_mark, hdiffers, hget]

/-- Outside the temperature environment no two keys share a bit. -/
theorem bit_ne (key : Key) {b : Bit} (hkey : key.bit = some b) (hb : b ≠ .tempQuality) {k : Key}
    (hk : k ≠ key) : k.bit ≠ some b := by
  rintro hbit
  cases b with
  | tempQuality => exact hb rfl
  | _ => cases k <;> cases key <;> simp_all [Key.bit]

/-- An option sees the lines of its key only. -/
theorem applied_option (k : OptionKey) (ns : Nat) (es : List (Key × Text)) (st : ParseState) :
    (isSet (applied ns es st).mask (.option k), (applied ns es st).conf.option k) =
      (valuesOf (.option k) es).foldl (optionSlot k).step
        (isSet st.mask (.option k), st.conf.option k) := by
  refine applied_slot (optionSlot k) (fun c => c.option k) (fun ns st v => ?_)
    (fun ns st k' v hk => ?_) ns es st
  · exact guarded_step (optionSlot k) _ _ _ st (fun c => c.option k) v rfl
      (Function.update_self ..)
  · have hbit := bit_ne (.option k) rfl (by simp) hk
    exact ⟨hbit, (updateState_frame ns st k' v).1 k hbit⟩

/-- So does the polling period. -/
theorem applied_pollPeriod (ns : Nat) (es : List (Key × Text)) (st : ParseState) :
    (isSet (applied ns es st).mask .pollPeriod, (applied ns es st).conf.pollPeriod) =
      (valuesOf .pollPeriod es).foldl pollPeriodSlot.step
        (isSet st.mask .pollPeriod, st.conf.pollPeriod) := by
  refine applied_slot pollPeriodSlot (fun c => c.pollPeriod) (fun ns st v => ?_)
    (fun ns st k' v hk => ?_) ns es st
  · exact guarded_step pollPeriodSlot _ _ _ st (fun c => c.pollPeriod) v rfl rfl
  · have hbit := bit_ne .pollPeriod rfl (by simp) hk
    exact ⟨hbit, (updateState_frame ns st k' v).2.1 hbit⟩

/-- So does an asymmetry. -/
theorem applied_asym (k : AsymKey) (ns : Nat) (es : List (Key × Text)) (st : ParseState) :
    (isSet (applied ns es st).mask (.asym k), (applied ns es st).conf.asym k) =
      (valuesOf (.asym k) es).foldl asymSlot.step
        (isSet st.mask (.asym k), st.conf.asym k) := by
  refine applied_slot asymSlot (fun c => c.asym k) (fun ns st v => ?_)
    (fun ns st k' v hk => ?_) ns es st
  · exact guarded_step asymSlot _ _ _ st (fun c => c.asym k) v rfl (Function.update_self ..)
  · have hbit := bit_ne (.asym k) rfl (by simp) hk
    exact ⟨hbit, (updateState_frame ns st k' v).2.2.1 k hbit⟩

/-- So does a text. -/
theorem applied_text (k : TextKey) (ns : Nat) (es : List (Key × Text)) (st : ParseState) :
    (isSet (applied ns es st).mask (.text k), (applied ns es st).conf.text k) =
      (valuesOf (.text k) es).foldl textSlot.step
        (isSet st.mask (.text k), st.conf.text k) := by
  refine applied_slot textSlot (fun c => c.text k) (fun ns st v => ?_)
    (fun ns st k' v hk => ?_) ns es st
  · exact guarded_step textSlot _ _ _ st (fun c => c.text k) v rfl (Function.update_self ..)
  · have hbit := bit_ne (.text k) rfl (by simp) hk
    exact ⟨hbit, (updateState_frame ns st k' v).2.2.2.1 k hbit⟩

/-! ## The temperature environment -/

/-- A line that counts for the metaparameters: a number, or a keyword that is known. -/
inductive TempLine where
  | scale (k : ScaleKey) (dval : Float)
  | offsetRatio (ival : Int32)
  | keyword (q : Quality)

/-- The line of an entry, if it counts; after an entry with the key of the keyword, known or not,
the numbers do not. -/
def tempLine (all : Bool) (k : Key) (v : Text) : Option TempLine :=
  match k with
  | .scale k => if all then none else some (.scale k (strtod v))
  | .offsetRatio => if all then none else some (.offsetRatio (atoi v))
  | .tempQuality => (findQuality v).map .keyword
  | _ => none

/-- The lines of a file that count. -/
def tempLines : Bool → List (Key × Text) → List TempLine
  | _, [] => []
  | all, (k, v) :: es => (tempLine all k v).toList ++ tempLines (all || k = .tempQuality) es

namespace TempLine

/-- The line gives another value than the one in force; of a keyword only `TSLIMIT` counts. -/
def announces (m : Temp) : TempLine → Bool
  | .scale k dval => (m.scale k).1 != dval
  | .offsetRatio ival => m.offsetRatio.1 ≠ ival
  | .keyword q => (m.scale .tslimit).1 - (q.scale .tslimit).1 != 0.0

/-- What the line makes of a metaparameter. -/
def scaleOf (k : ScaleKey) : TempLine → Option Scale
  | .scale j dval =>
    if j = k then some (if h : dval < 0.0 then Quality.good.scale k else ⟨dval, h⟩) else none
  | .offsetRatio _ => none
  | .keyword q => some (q.scale k)

def offsetOf : TempLine → Option OffsetRatio
  | .scale _ _ => none
  | .offsetRatio ival =>
    some (if h : 0 < ival.toInt then ⟨ival, h⟩ else Quality.good.offsetRatio)
  | .keyword q => some q.offsetRatio

def quality : TempLine → Option Quality
  | .keyword q => some q
  | _ => none

end TempLine

/-- The values in force after some lines: for each metaparameter what the last line makes of it
that makes something of it. -/
def Temp.after (old : Temp) (ls : List TempLine) : Temp where
  scale k := (ls.reverse.findSome? (TempLine.scaleOf k)).getD (old.scale k)
  offsetRatio := (ls.reverse.findSome? TempLine.offsetOf).getD old.offsetRatio

/-- Some line gives another value than the one in force where it stands. -/
def Announced (old : Temp) (ls : List TempLine) : Prop :=
  ∃ pre l post, ls = pre ++ l :: post ∧ l.announces (old.after pre) = true

def lastQuality (ls : List TempLine) : Option Quality := ls.reverse.findSome? TempLine.quality

/-- Lines that give other values than those in force do not end where they started; and if there
are none, the last keyword agrees with the old values in all six. -/
def TempTells (old : Temp) (ls : List TempLine) : Prop :=
  (Announced old ls → ¬ old.Same (old.after ls)) ∧
  (¬ Announced old ls → ∀ q ∈ lastQuality ls, old.Same q.temp)

/-- The last line that has a value decides. -/
theorem findSome?_append_getD {β : Type} (f : TempLine → Option β) (ls ls' : List TempLine)
    (d : β) : ((ls ++ ls').reverse.findSome? f).getD d =
      (ls'.reverse.findSome? f).getD ((ls.reverse.findSome? f).getD d) := by
  rw [List.reverse_append, List.findSome?_append]
  cases ls'.reverse.findSome? f <;> rfl

/-- Lines after lines. -/
theorem Temp.after_append (old : Temp) (ls ls' : List TempLine) :
    old.after (ls ++ ls') = (old.after ls).after ls' := by
  simp only [Temp.after, findSome?_append_getD]

theorem Temp.after_nil (old : Temp) : old.after [] = old := rfl

/-- The first line is announced, or a later one after it. -/
theorem announced_cons (old : Temp) (l : TempLine) (ls : List TempLine) :
    Announced old (l :: ls) ↔ l.announces old = true ∨ Announced (old.after [l]) ls := by
  constructor
  · rintro ⟨pre, l', post, heq, hann⟩
    cases pre with
    | nil =>
      cases heq
      exact .inl hann
    | cons a pre =>
      cases heq
      refine .inr ⟨pre, l', post, rfl, ?_⟩
      rwa [← Temp.after_append]
  · rintro (hann | ⟨pre, l', post, rfl, hann⟩)
    · exact ⟨[], l, ls, rfl, hann⟩
    · refine ⟨l :: pre, l', post, rfl, ?_⟩
      rwa [← Temp.after_append] at hann

/-- An earlier line is announced, or the last one after them. -/
theorem announced_snoc (old : Temp) (ls : List TempLine) (l : TempLine) :
    Announced old (ls ++ [l]) ↔ Announced old ls ∨ l.announces (old.after ls) = true := by
  induction ls generalizing old with
  | nil =>
    have hnil : ∀ m, ¬ Announced m [] := by
      rintro m ⟨pre, l', post, heq, _⟩
      cases pre <;> cases heq
    rw [List.nil_append, announced_cons, Temp.after_nil]
    simp [hnil]
  | cons a ls ih =>
    rw [List.cons_append, announced_cons, announced_cons, ih, ← Temp.after_append,
      List.singleton_append, or_assoc]

/-- A line that gives the value in force leaves it in force, unless it is a keyword. -/
theorem same_after_line {m : Temp} {l : TempLine} (h : l.announces m = false) :
    (m.after [l]).Same ((l.quality).elim m Quality.temp) := by
  cases l with
  | keyword q => exact ⟨fun k => .refl _, rfl⟩
  | scale j dval =>
    -- a line that announces nothing writes the value already there
    have heq : ((m.scale j).1 == dval) = true := by
      have h' : ((m.scale j).1 != dval) = false := h
      rwa [bne, Bool.not_eq_false'] at h'
    have hrange : ¬ dval < 0.0 := by
      rw [← Float.lt_congr_left heq]
      exact (m.scale j).2
    refine ⟨fun k => ?_, rfl⟩
    by_cases hk : j = k
    · subst hk
      have hnew : (m.after [.scale j dval]).scale j = ⟨dval, hrange⟩ := by
        simp only [Temp.after, TempLine.scaleOf, List.reverse_singleton, List.findSome?_cons,
          if_true]
        exact dif_neg hrange
      rw [hnew]
      exact SameNumber.symm (.inr heq)
    · have hnew : (m.after [.scale j dval]).scale k = m.scale k := by
        simp [Temp.after, TempLine.scaleOf, hk]
      rw [hnew]
      exact .refl _
  | offsetRatio ival =>
    have heq : m.offsetRatio.1 = ival := by simpa [TempLine.announces] using h
    have hrange : 0 < ival.toInt := heq ▸ m.offsetRatio.2
    refine ⟨fun k => .refl _, ?_⟩
    have hnew : (m.after [.offsetRatio ival]).offsetRatio = ⟨ival, hrange⟩ := by
      simp only [Temp.after, TempLine.offsetOf, List.reverse_singleton, List.findSome?_cons]
      exact dif_pos hrange
    rw [hnew]
    exact heq.symm

/-- A keyword at the end is the last one. -/
theorem lastQuality_snoc (ls : List TempLine) (l : TempLine) :
    lastQuality (ls ++ [l]) = l.quality.or (lastQuality ls) := by
  simp only [lastQuality, List.reverse_append, List.reverse_singleton, List.singleton_append,
    List.findSome?_cons]
  cases l.quality <;> rfl

/-- If no line gives another value, only a keyword can have changed something. -/
theorem same_after {old : Temp} (ls : List TempLine) (h : ¬ Announced old ls) :
    (old.after ls).Same ((lastQuality ls).elim old Quality.temp) := by
  induction ls using List.reverseRecOn with
  | nil => exact .refl old
  | append_singleton ls l ih =>
    rw [announced_snoc, not_or, Bool.not_eq_true] at h
    have hline := same_after_line h.2
    rw [Temp.after_append, lastQuality_snoc]
    cases hq : l.quality with
    | none =>
      rw [hq] at hline
      exact hline.trans (ih h.1)
    | some q =>
      rw [hq] at hline
      exact hline

/-- The bit is right exactly if the lines that differ do not lead back to where they started. -/
theorem tempTells_iff (old : Temp) (ls : List TempLine) :
    (Announced old ls ↔ ¬ old.Same (old.after ls)) ↔ TempTells old ls := by
  by_cases hann : Announced old ls
  · simp [TempTells, hann]
  · -- nothing was announced: only a keyword can have changed a value unseen
    have hsame := same_after ls hann
    have hiff : old.Same (old.after ls) ↔ ∀ q ∈ lastQuality ls, old.Same q.temp := by
      cases hq : lastQuality ls with
      | none =>
        rw [hq] at hsame
        have hold : old.Same (old.after ls) := hsame.symm
        simp [hold]
      | some q =>
        rw [hq] at hsame
        simp only [Option.mem_some_iff, forall_eq']
        exact ⟨fun h => h.trans hsame, fun h => h.trans hsame.symm⟩
    simp [TempTells, hann, hiff]

theorem not_announced_nil (old : Temp) : ¬ Announced old [] := by
  rintro ⟨pre, l, post, heq, _⟩
  cases pre <;> cases heq

/-- A line that may not count, and the lines after it. -/
theorem announced_toList_append (old : Temp) (l : Option TempLine) (ls : List TempLine) :
    Announced old (l.toList ++ ls) ↔
      l.any (·.announces old) = true ∨ Announced (old.after l.toList) ls := by
  cases l with
  | none => simp [Temp.after_nil]
  | some l => exact announced_cons old l ls

/-- What an entry does to the metaparameters and their bit. -/
theorem updateState_temp (ns : Nat) (st : ParseState) (k : Key) (v : Text) :
    isSet (updateState ns st k v).mask .tempQuality =
      ((tempLine st.haveAllTmpqual k v).any (·.announces st.conf.temp) ||
        isSet st.mask .tempQuality) ∧
    (updateState ns st k v).conf.temp =
      st.conf.temp.after (tempLine st.haveAllTmpqual k v).toList ∧
    (updateState ns st k v).haveAllTmpqual = (st.haveAllTmpqual || k = .tempQuality) := by
  cases k with
  | scale k =>
    simp only [updateState, updateField, scaleCase, tempLine]
    -- after a keyword the single values are ignored
    cases hall : st.haveAllTmpqual with
    | true => simp [hall, Temp.after_nil]
    | false =>
      refine ⟨by simp [isSet_mark, TempLine.announces, RadclockConfig.temp], ?_, by simp⟩
      simp only [Bool.false_eq_true, if_false, Option.toList_some, RadclockConfig.temp,
        Temp.after, List.reverse_singleton, List.findSome?_cons, List.findSome?_nil]
      congr 1
      funext j
      by_cases hj : k = j
      · subst hj
        simp [TempLine.scaleOf]
      · simp [TempLine.scaleOf, hj, Function.update_of_ne (Ne.symm hj)]
  | offsetRatio =>
    simp only [updateState, updateField, offsetRatioCase, tempLine]
    cases hall : st.haveAllTmpqual with
    | true => simp [hall, Temp.after_nil]
    | false =>
      refine ⟨?_, rfl, by simp⟩
      show isSet (mark st.mask .tempQuality (st.conf.offsetRatio.1 ≠ atoi v)) .tempQuality = _
      simp only [isSet_mark, decide_true, Bool.and_true]
      rfl
  | tempQuality =>
    simp only [updateState, updateField, tempQualityCase, tempLine]
    cases findQuality v with
    | none => simp [Temp.after_nil]
    | some q =>
      refine ⟨by simp [isSet_mark, TempLine.announces, RadclockConfig.temp], rfl, by simp⟩
  | option k =>
    simp only [updateState, updateField, optionCase, guarded]
    split <;> simp [tempLine, Temp.after_nil, isSet_mark, RadclockConfig.temp]
  | pollPeriod =>
    simp only [updateState, updateField, pollPeriodCase, guarded]
    split <;> simp [tempLine, Temp.after_nil, isSet_mark, RadclockConfig.temp]
  | asym k =>
    simp only [updateState, updateField, asymCase, guarded]
    split <;> simp [tempLine, Temp.after_nil, isSet_mark, RadclockConfig.temp]
  | text k =>
    simp only [updateState, updateField, textCase, guarded]
    split <;> simp [tempLine, Temp.after_nil, isSet_mark, RadclockConfig.temp]
  | timeServer =>
    simp only [updateState, serverState]
    split <;> simp [tempLine, Temp.after_nil, isSet_mark, RadclockConfig.temp]
  | _ => simp [updateState, updateField, phatInitCase, tempLine, Temp.after_nil,
    RadclockConfig.temp]

/-- What a file makes of the metaparameters and of their bit. -/
theorem applied_temp (ns : Nat) (es : List (Key × Text)) :
    ∀ st, (isSet (applied ns es st).mask .tempQuality = true ↔
        isSet st.mask .tempQuality = true ∨
          Announced st.conf.temp (tempLines st.haveAllTmpqual es)) ∧
      (applied ns es st).conf.temp = st.conf.temp.after (tempLines st.haveAllTmpqual es) := by
  induction es with
  | nil => exact fun st => ⟨by simp [applied, tempLines, not_announced_nil], rfl⟩
  | cons e es ih =>
    intro st
    obtain ⟨k, v⟩ := e
    obtain ⟨hmask, htemp, hall⟩ := updateState_temp ns st k v
    obtain ⟨hset, hafter⟩ := ih (updateState ns st k v)
    rw [show applied ns ((k, v) :: es) st = applied ns es (updateState ns st k v) from rfl,
      tempLines, announced_toList_append, Temp.after_append]
    rw [hall, htemp] at hset hafter
    refine ⟨?_, hafter⟩
    rw [hset, hmask, Bool.or_eq_true]
    tauto

/-! ## Time servers -/

/-- The new list is as long as the old one, or one of its names is seen to be new: it comes
where the old list has ended, or is not the name that is there. -/
def ServersTell (ns : Nat) (block : Nat → Text) (names : List Text) : Prop :=
  names.length = ns ∨
    ∃ i v, names[i]? = some v ∧ ((ns ≠ 0 ∧ ns ≤ i) ∨ block i ≠ v)

/-- The values of a key with one setting more. -/
theorem valuesOf_cons (key k : Key) (v : Text) (es : List (Key × Text)) :
    valuesOf key ((k, v) :: es) = if k = key then v :: valuesOf key es else valuesOf key es := by
  by_cases h : k = key <;> simp [valuesOf, h]

/-- The names of a file go into the blocks from `st.nf` on. -/
theorem applied_servers (ns : Nat) (es : List (Key × Text)) :
    ∀ st : ParseState, (st.nf = 0 → isSet st.mask .timeServer = false) →
      (applied ns es st).nf = st.nf + (valuesOf .timeServer es).length ∧
      (∀ i, (applied ns es st).conf.timeServer.block i =
        if i < st.nf then st.conf.timeServer.block i
        else ((valuesOf .timeServer es)[i - st.nf]?).getD (st.conf.timeServer.block i)) ∧
      (isSet (applied ns es st).mask .timeServer = true ↔
        isSet st.mask .timeServer = true ∨ ∃ i v, (valuesOf .timeServer es)[i]? = some v ∧
          ((ns ≠ 0 ∧ ns ≤ st.nf + i) ∨ st.conf.timeServer.block (st.nf + i) ≠ v)) := by
  -- on the lines, with any number of names read before
  induction es with
  | nil => exact fun st _ =>
    ⟨rfl, fun i => by simp [applied, valuesOf], by simp [applied, valuesOf]⟩
  | cons e es ih =>
    intro st hfirst
    obtain ⟨k, v⟩ := e
    rw [show applied ns ((k, v) :: es) st = applied ns es (updateState ns st k v) from rfl,
      valuesOf_cons]
    -- only a time_server line reaches the block
    by_cases hk : k = .timeServer
    · subst hk
      have hst : updateState ns st .timeServer v = serverState ns st v := rfl
      have hnot : ¬ (st.nf = 0 ∧ isSet st.mask .timeServer = true) := by
        rintro ⟨h0, hset⟩
        rw [hfirst h0] at hset
        cases hset
      have hnf : (serverState ns st v).nf = st.nf + 1 := by rw [serverState, if_neg hnot]
      have hblock : (serverState ns st v).conf.timeServer.block =
          Function.update st.conf.timeServer.block st.nf v := by
        rw [serverState, if_neg hnot]
      have hmask : isSet (serverState ns st v).mask .timeServer = true ↔
          isSet st.mask .timeServer = true ∨
            ((ns ≠ 0 ∧ ns ≤ st.nf) ∨ st.conf.timeServer.block st.nf ≠ v) := by
        rw [serverState, if_neg hnot]
        simp only [isSet_mark, decide_true, Bool.and_true, Bool.or_eq_true, decide_eq_true_iff]
        exact or_comm
      obtain ⟨hlen, hblocks, hset⟩ := ih (serverState ns st v) (by rw [hnf]; omega)
      rw [hst, if_pos rfl]
      refine ⟨by rw [hlen, hnf, List.length_cons]; omega, fun i => ?_, ?_⟩
      · rw [hblocks, hnf, hblock]
        -- names before this one, this one, and those to come
        rcases Nat.lt_trichotomy i st.nf with hi | hi | hi
        · rw [if_pos (by omega), if_pos hi, Function.update_of_ne (by omega)]
        · subst hi
          rw [if_pos (by omega), if_neg (by omega), Function.update_self]
          simp
        · rw [if_neg (by omega), if_neg (by omega), Function.update_of_ne (by omega),
            show i - st.nf = (i - (st.nf + 1)) + 1 by omega, List.getElem?_cons_succ]
      · rw [hset, hmask, hnf, hblock, or_assoc]
        refine or_congr_right ⟨?_, ?_⟩
        · rintro (h | ⟨i, w, hw, h⟩)
          · exact ⟨0, v, rfl, h⟩
          · refine ⟨i + 1, w, by simpa using hw, ?_⟩
            rw [Function.update_of_ne (by omega), Nat.add_assoc, Nat.add_comm 1 i] at h
            exact h
        · rintro ⟨i, w, hw, h⟩
          cases i with
          | zero =>
            cases hw
            exact .inl h
          | succ i =>
            refine .inr ⟨i, w, by simpa using hw, ?_⟩
            rw [Function.update_of_ne (by omega), Nat.add_assoc, Nat.add_comm 1 i]
            exact h
    · have hbit := bit_ne .timeServer rfl (by simp) hk
      obtain ⟨hmem, hnf⟩ := (updateState_frame ns st k v).2.2.2.2.2 hbit
      have hmask := isSet_updateState hbit ns st v
      have := ih (updateState ns st k v) (by rw [hnf, hmask]; exact hfirst)
      rw [hmem, hnf, hmask] at this
      rw [if_neg hk]
      exact this

/-- From the first line of a file on. -/
theorem serverNames_applied (ns : Nat) (es : List (Key × Text)) (st : ParseState) (hnf : st.nf = 0)
    (hmask : isSet st.mask .timeServer = false) :
    serverNames (applied ns es st).conf (applied ns es st).nf = valuesOf .timeServer es := by
  obtain ⟨hlen, hblocks, _⟩ := applied_servers ns es st fun _ => hmask
  unfold serverNames
  rw [hlen, hnf, Nat.zero_add]
  apply List.ext_getElem
  · simp
  · intro i h₁ h₂
    simp only [List.getElem_map, List.getElem_range, hblocks, hnf, Nat.not_lt_zero, if_false,
      Nat.sub_zero, List.getElem?_eq_getElem h₂, Option.getD_some]

/-- The bit of the servers is right exactly if a name differs or the number does. -/
theorem serversTell_iff (ns : Nat) (conf : RadclockConfig) (names : List Text) :
    ((∃ i v, names[i]? = some v ∧ ((ns ≠ 0 ∧ ns ≤ i) ∨ conf.timeServer.block i ≠ v)) ↔
      serverNames conf ns ≠ names) ↔ ServersTell ns conf.timeServer.block names := by
  have hlen : (serverNames conf ns).length = ns := by simp [serverNames]
  unfold ServersTell
  by_cases hseen : ∃ i v, names[i]? = some v ∧ ((ns ≠ 0 ∧ ns ≤ i) ∨ conf.timeServer.block i ≠ v)
  · -- a name that differs, or one beyond the old number
    have hne : serverNames conf ns ≠ names := by
      rintro rfl
      obtain ⟨i, v, hv, h⟩ := hseen
      obtain ⟨hi, hget⟩ := List.getElem?_eq_some_iff.mp hv
      rw [hlen] at hi
      simp only [serverNames, List.getElem_map, List.getElem_range] at hget
      rcases h with ⟨_, h⟩ | h
      · omega
      · exact h hget
    simp [hseen, hne]
  · -- nothing was seen to differ: the lists are equal if their lengths are
    have hsame : names.length = ns ↔ serverNames conf ns = names := by
      constructor
      · intro heq
        apply List.ext_getElem (by rw [hlen, heq])
        intro i h₁ h₂
        simp only [serverNames, List.getElem_map, List.getElem_range]
        by_contra hne
        exact hseen ⟨i, names[i], List.getElem?_eq_getElem h₂, .inr hne⟩
      · rintro rfl
        exact hlen
    simp only [hseen, false_iff, not_not, or_false]
    exact hsame.symm

/-! ## The whole mask -/

/-- A field without a bit has the value of the last line of its key. -/
theorem applied_last {α : Type} (key : Key) (get : RadclockConfig → α) (read : Text → α)
    (hown : ∀ ns st v, get (updateState ns st key v).conf = read v)
    (hother : ∀ ns st k v, k ≠ key → get (updateState ns st k v).conf = get st.conf) (ns : Nat)
    (es : List (Key × Text)) :
    ∀ st, get (applied ns es st).conf =
      ((valuesOf key es).getLast?.map read).getD (get st.conf) := by
  induction es with
  | nil => exact fun st => rfl
  | cons e es ih =>
    intro st
    obtain ⟨k, v⟩ := e
    rw [show applied ns ((k, v) :: es) st = applied ns es (updateState ns st k v) from rfl, ih,
      valuesOf_cons]
    -- a line of the key is overridden by a later one, other lines do not matter
    by_cases hk : k = key
    · subst hk
      rw [if_pos rfl, hown, List.getLast?_cons]
      cases (valuesOf k es).getLast? <;> rfl
    · rw [if_neg hk, hother ns st k v hk]

/-- The version and the initial period are touched by their own lines only. -/
theorem updateState_unmarked (ns : Nat) (st : ParseState) (k : Key) (v : Text) :
    (k ≠ .radclockVersion →
      (updateState ns st k v).conf.radclockVersion = st.conf.radclockVersion) ∧
    (k ≠ .phatInit → (updateState ns st k v).conf.phatInit = st.conf.phatInit) := by
  cases k with
  | radclockVersion => exact ⟨fun h => absurd rfl h, fun _ => rfl⟩
  | phatInit => exact ⟨fun _ => rfl, fun h => absurd rfl h⟩
  | option k =>
    simp only [updateState, updateField, optionCase, guarded]
    split <;> exact ⟨fun _ => rfl, fun _ => rfl⟩
  | pollPeriod =>
    simp only [updateState, updateField, pollPeriodCase, guarded]
    split <;> exact ⟨fun _ => rfl, fun _ => rfl⟩
  | asym k =>
    simp only [updateState, updateField, asymCase, guarded]
    split <;> exact ⟨fun _ => rfl, fun _ => rfl⟩
  | text k =>
    simp only [updateState, updateField, textCase, guarded]
    split <;> exact ⟨fun _ => rfl, fun _ => rfl⟩
  | scale k =>
    simp only [updateState, updateField, scaleCase]
    split <;> exact ⟨fun _ => rfl, fun _ => rfl⟩
  | offsetRatio =>
    simp only [updateState, updateField, offsetRatioCase]
    split <;> exact ⟨fun _ => rfl, fun _ => rfl⟩
  | tempQuality =>
    simp only [updateState, updateField, tempQualityCase]
    cases findQuality v <;> exact ⟨fun _ => rfl, fun _ => rfl⟩
  | timeServer =>
    simp only [updateState, serverState]
    split <;> exact ⟨fun _ => rfl, fun _ => rfl⟩
  | _ => exact ⟨fun _ => rfl, fun _ => rfl⟩

/-- The version that a file leaves in the configuration before it is brought up to date. -/
def versionOf (conf : RadclockConfig) (es : List (Key × Text)) : Text :=
  (valuesOf .radclockVersion es).getLast?.getD conf.radclockVersion

/-- The last line of the version decides. -/
theorem applied_version (ns : Nat) (es : List (Key × Text)) (st : ParseState) :
    (applied ns es st).conf.radclockVersion = versionOf st.conf es := by
  rw [applied_last .radclockVersion (fun c => c.radclockVersion) id (fun _ _ _ => rfl)
    (fun ns st k v hk => (updateState_unmarked ns st k v).1 hk) ns es st, versionOf, Option.map_id,
    id_eq]

section
variable (packageVersion : Text) (isDaemon writable : Bool)

/-- The text is an input file, and it is dropped at the end of the parse. -/
def Drops (conf : RadclockConfig) (es : List (Key × Text)) (k : TextKey) : Prop :=
  isDaemon = true ∧ (k = .syncInAscii ∨ k = .syncInPcap) ∧
    (versionOf conf es = packageVersion ∨ writable = true)

/-- What the configuration and the lines of a file must satisfy for a bit to be right. -/
def Tells (conf : RadclockConfig) (ns : Nat) (es : List (Key × Text)) : Bit → Prop
  | .pollPeriod => pollPeriodSlot.Tells conf.pollPeriod (valuesOf .pollPeriod es)
  | .tempQuality => TempTells conf.temp (tempLines false es)
  | .asym k => asymSlot.Tells (conf.asym k) (valuesOf (.asym k) es)
  | .option k => (optionSlot k).Tells (conf.option k) (valuesOf (.option k) es)
  | .text k => Drops packageVersion isDaemon writable conf es k →
      ((∃ v ∈ valuesOf (.text k) es, v ≠ conf.text k) ↔ conf.text k ≠ [])
  | .timeServer => ServersTell ns conf.timeServer.block (valuesOf .timeServer es)

/-- Trimming touches the blocks of the names only. -/
theorem trimServers_frame (ns nf : Nat) (conf : RadclockConfig) :
    (trimServers ns nf conf).radclockVersion = conf.radclockVersion ∧
    (trimServers ns nf conf).option = conf.option ∧
    (trimServers ns nf conf).pollPeriod = conf.pollPeriod ∧
    (trimServers ns nf conf).temp = conf.temp ∧
    (trimServers ns nf conf).asym = conf.asym ∧
    (trimServers ns nf conf).text = conf.text ∧
    (trimServers ns nf conf).timeServer.block = conf.timeServer.block := by
  unfold trimServers
  split <;> exact ⟨rfl, rfl, rfl, rfl, rfl, rfl, rfl⟩

@[simp] theorem liveInput_temp (isDaemon : Bool) (conf : RadclockConfig) :
    (liveInput isDaemon conf).temp = conf.temp := by
  cases isDaemon <;> rfl

@[simp] theorem serverNames_liveInput (isDaemon : Bool) (conf : RadclockConfig) (ns : Nat) :
    serverNames (liveInput isDaemon conf) ns = serverNames conf ns := by
  rw [serverNames, liveInput_timeServer, serverNames]

/-- The end of a parse changes nothing but the version, the memory and the input files. -/
theorem finished_frame (packageVersion : Text) (isDaemon writable : Bool) (ns : Nat)
    (st : ParseState) :
    (finished packageVersion isDaemon writable ns st).option = st.conf.option ∧
    (finished packageVersion isDaemon writable ns st).pollPeriod = st.conf.pollPeriod ∧
    (finished packageVersion isDaemon writable ns st).temp = st.conf.temp ∧
    (finished packageVersion isDaemon writable ns st).asym = st.conf.asym ∧
    (finished packageVersion isDaemon writable ns st).timeServer.block =
      st.conf.timeServer.block := by
  obtain ⟨_, h₁, h₂, h₃, h₄, _, h₅⟩ := trimServers_frame ns st.nf st.conf
  unfold finished
  simp only
  split_ifs
  · simp only [liveInput_option, liveInput_pollPeriod, liveInput_temp, liveInput_asym,
      liveInput_timeServer]
    exact ⟨h₁, h₂, h₃, h₄, h₅⟩
  · simp only [liveInput_option, liveInput_pollPeriod, liveInput_temp, liveInput_asym,
      liveInput_timeServer]
    exact ⟨h₁, h₂, h₃, h₄, h₅⟩
  · exact ⟨h₁, h₂, h₃, h₄, h₅⟩

open Classical in
/-- At the end of a parse a daemon has dropped the names of its input files. -/
theorem finished_text (packageVersion : Text) (isDaemon writable : Bool) (ns : Nat)
    (es : List (Key × Text)) (st : ParseState) (k : TextKey) :
    (finished packageVersion isDaemon writable ns (applied ns es st)).text k =
      if Drops packageVersion isDaemon writable st.conf es k then []
      else (applied ns es st).conf.text k := by
  obtain ⟨hver, _, _, _, _, htext, _⟩ :=
    trimServers_frame ns (applied ns es st).nf (applied ns es st).conf
  rw [applied_version] at hver
  unfold finished Drops
  simp only [hver]
  by_cases hv : versionOf st.conf es = packageVersion
  · simp only [hv, if_true, liveInput_text, htext, true_or, and_true]
  · cases writable with
    | true => simp only [hv, if_false, if_true, liveInput_text, htext, or_true, and_true]
    | false => simp [hv, htext]

/-- A bit is right exactly when the file and the configuration before it satisfy its condition. -/
theorem bit_tells_iff (conf : RadclockConfig) (ns : Nat) (es : List (Key × Text)) (b : Bit) :
    (isSet (applied ns es ⟨conf, UPDMASK_NOUPD, 0, false⟩).mask b = true ↔
      Changed conf (finished packageVersion isDaemon writable ns
        (applied ns es ⟨conf, UPDMASK_NOUPD, 0, false⟩)) ns
        (applied ns es ⟨conf, UPDMASK_NOUPD, 0, false⟩).nf b) ↔
    Tells packageVersion isDaemon writable conf ns es b := by
  obtain ⟨hoption, hpoll, htemp, hasym, hblock⟩ := finished_frame packageVersion isDaemon writable
    ns (applied ns es ⟨conf, UPDMASK_NOUPD, 0, false⟩)
  have hclear : ∀ b, isSet UPDMASK_NOUPD b = false := isSet_noupd
  cases b with
  -- a value with a bit of its own is one slot of the parse
  | option k =>
    have happ := applied_option k ns es ⟨conf, UPDMASK_NOUPD, 0, false⟩
    have htells := Slot.tells_iff (optionSlot_lawful k) (conf.option k) (valuesOf (.option k) es)
    simp only [hclear] at happ
    rw [← happ] at htells
    simp only [Changed, hoption]
    exact htells
  | pollPeriod =>
    have happ := applied_pollPeriod ns es ⟨conf, UPDMASK_NOUPD, 0, false⟩
    have htells := Slot.tells_iff pollPeriodSlot_lawful conf.pollPeriod (valuesOf .pollPeriod es)
    simp only [hclear] at happ
    rw [← happ] at htells
    simp only [Changed, hpoll]
    exact htells
  | asym k =>
    have happ := applied_asym k ns es ⟨conf, UPDMASK_NOUPD, 0, false⟩
    have htells := Slot.tells_iff asymSlot_lawful (conf.asym k) (valuesOf (.asym k) es)
    simp only [hclear] at happ
    rw [← happ] at htells
    simp only [Changed, hasym]
    exact htells
  | text k =>
    have happ := applied_text k ns es ⟨conf, UPDMASK_NOUPD, 0, false⟩
    simp only [hclear] at happ
    have htext := finished_text packageVersion isDaemon writable ns es
      ⟨conf, UPDMASK_NOUPD, 0, false⟩ k
    simp only [Changed, htext, Tells]
    -- a text the live input does not use is emptied at the end, unmarked
    by_cases hdrop : Drops packageVersion isDaemon writable conf es k
    · have hmark := Slot.marked_iff textSlot_lawful (conf.text k) (valuesOf (.text k) es)
      rw [← happ] at hmark
      simp only [hdrop, if_true, true_imp_iff, hmark, textSlot, decide_eq_true_iff, ne_comm]
    · have htells := Slot.tells_iff textSlot_lawful (conf.text k) (valuesOf (.text k) es)
      rw [← happ] at htells
      have htrue : textSlot.Tells (conf.text k) (valuesOf (.text k) es) := by
        intro v hv
        simpa [textSlot] using List.find?_some hv
      simp only [hdrop, if_false, false_imp_iff, iff_true]
      exact htells.mpr htrue
  -- the six metaparameters and the keyword share one bit
  | tempQuality =>
    obtain ⟨hset, hafter⟩ := applied_temp ns es ⟨conf, UPDMASK_NOUPD, 0, false⟩
    simp only [hclear, Bool.false_eq_true, false_or] at hset
    simp only [Changed, htemp, hset, hafter]
    exact tempTells_iff conf.temp (tempLines false es)
  | timeServer =>
    obtain ⟨_, _, hset⟩ := applied_servers ns es ⟨conf, UPDMASK_NOUPD, 0, false⟩
      fun _ => hclear .timeServer
    have hnames := serverNames_applied ns es ⟨conf, UPDMASK_NOUPD, 0, false⟩ rfl
      (hclear .timeServer)
    simp only [hclear, Bool.false_eq_true, false_or, Nat.zero_add] at hset
    simp only [Changed, serverNames, hblock] at hnames ⊢
    rw [hset, hnames]
    exact serversTell_iff ns conf (valuesOf .timeServer es)

/-- The mask tells exactly which fields have changed. -/
def MaskTells (conf : RadclockConfig) (ns : Nat) (p : Parsed) : Prop :=
  ∀ b, isSet p.mask b = true ↔ Changed conf p.conf ns p.ns b

/-- After a parse that returns, the mask tells exactly which fields have changed if and only if
the lines of the file and the configuration before it satisfy the condition of every bit. -/
theorem mask_tells_iff (key text : Text) (conf : RadclockConfig) (ns : Nat) :
    Exec.Returns
      (configParse packageVersion key isDaemon ⟨some text, writable⟩ conf UPDMASK_NOUPD ns)
      fun p => MaskTells conf ns p ↔
        ∀ b, Tells packageVersion isDaemon writable conf ns
          (entries key (readLines (MAXLINE - 1) [] text)).1 b := by
  intro p hp
  obtain ⟨_, hmask, hns, hconf⟩ := configParse_res hp
  have hbit := bit_tells_iff packageVersion isDaemon writable conf ns
    (entries key (readLines (MAXLINE - 1) [] text)).1
  unfold MaskTells
  rw [hmask, hns, hconf]
  exact forall_congr' hbit

end

/-- From the defaults to a poor environment: five metaparameters change, and the mask is empty. -/
theorem not_mask_tells_poor : ¬ Exec.Returns
    (configParse "1.0".toList blankKey true ⟨some "temperature_quality = poor\n".toList, true⟩
      (configInit "1.0".toList fun _ => []) UPDMASK_NOUPD 1)
    (MaskTells (configInit "1.0".toList fun _ => []) 1) := by
  intro h
  obtain ⟨p, hp⟩ := Option.isSome_iff_exists.mp (show (configParse "1.0".toList blankKey true
    ⟨some "temperature_quality = poor\n".toList, true⟩ (configInit "1.0".toList fun _ => [])
    UPDMASK_NOUPD 1).res.isSome = true by decide +kernel)
  obtain ⟨_, hmask, _, hconf⟩ := configParse_res hp
  have hclear : isSet p.mask .tempQuality = false := by
    rw [hmask]
    decide +kernel
  have hchanged : Changed (configInit "1.0".toList fun _ => []) p.conf 1 p.ns .tempQuality := by
    intro hsame
    have hskm := hsame.scale .skmScale
    rw [hconf, (finished_frame _ _ _ _ _).2.2.1] at hskm
    revert hskm
    decide +kernel
  have := (h p hp .tempQuality).mpr hchanged
  rw [hclear] at this
  cases this

end RADclock.ConfigMgr
