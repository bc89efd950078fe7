import RADclock.Config.Settings

/-!
# Bringing an outdated file up to date

When the version of the file is not that of the package, `config_parse` writes the configuration
it has just read over the file. The new file should mean what the old one meant: read from a
fresh `config_init`, it should give every field the same value.

- `KeepsMeaning`: it does.
- `Survives`: what a configuration must satisfy for that. Every line has to fit into the buffer it
  is read with, the numbers must be those that their decimals denote, and there must be a
  server to write.
- `upgrade_keeps_iff`: this is exactly when.
-/

namespace RADclock.ConfigMgr

open Lib

/-! ## Printed numbers -/

theorem isNumeral_of_isDigit {c : Char} (h : c.isDigit = true) : isNumeral c = true := by
  rw [isNumeral, h, Bool.true_or]

/-- Printed digits are characters of a number. -/
theorem isNumeral_printUnsigned (n : Nat) : ∀ c ∈ printUnsigned n, isNumeral c = true :=
  fun _ hc => isNumeral_of_isDigit (isDigit_of_mem_printUnsigned hc)

theorem isNumeral_printSign (neg : Bool) : ∀ c ∈ printSign neg, isNumeral c = true :=
  List.all_eq_true.mp (by cases neg <;> decide)

/-- So are those of a printed integer, with its sign. -/
theorem isNumeral_printInt (n : Int) : ∀ c ∈ printInt n, isNumeral c = true := by
  intro c hc
  rcases List.mem_append.mp hc with hc | hc
  · exact isNumeral_printSign _ c hc
  · exact isNumeral_printUnsigned _ c hc

/-- So are those of `%.kf`. -/
theorem isNumeral_printFixed (k : Nat) (neg : Bool) (n : Nat) :
    ∀ c ∈ printFixed k neg n, isNumeral c = true := by
  intro c hc
  simp only [printFixed, List.mem_append, List.mem_cons] at hc
  rcases hc with (hc | hc) | rfl | hc
  · exact isNumeral_printSign _ c hc
  · exact isNumeral_printUnsigned _ c hc
  · decide
  · exact isNumeral_of_isDigit (isDigit_of_mem_printPadded hc)

theorem isNumeral_inf (neg : Bool) :
    ∀ c ∈ printSign neg ++ "inf".toList, isNumeral c = true :=
  List.all_eq_true.mp (by cases neg <;> decide)

/-- Whatever a double is, it is printed with the characters of a number. -/
theorem isNumeral_printDouble (k : Nat) (x : Float) :
    ∀ c ∈ printDouble k x, isNumeral c = true := by
  unfold printDouble
  split
  · exact isNumeral_inf _
  · exact List.all_eq_true.mp (by decide)
  · exact isNumeral_printFixed k _ _
  · exact isNumeral_printFixed k _ _

/-- Something is printed. -/
theorem printDouble_ne_nil (k : Nat) (x : Float) : printDouble k x ≠ [] := by
  unfold printDouble
  split <;> simp [printFixed]

theorem isNumeral_printFraction {ds : Text} (h : ∀ c ∈ ds, isNumeral c = true) :
    ∀ c ∈ printFraction ds, isNumeral c = true := by
  intro c hc
  simp only [printFraction] at hc
  split at hc
  · cases hc
  · rcases List.mem_cons.mp hc with rfl | hc
    · decide
    · exact h c (( List.rdropWhile_prefix _ ds).mem hc)

/-- So are those of the short and of the long form of `%g`. -/
theorem isNumeral_printShort (q : ℚ) : ∀ c ∈ printShort q, isNumeral c = true := by
  have hds := isNumeral_printUnsigned (sixDigits q).1
  intro c hc
  simp only [printShort] at hc
  split_ifs at hc
  · simp only [List.mem_append, List.mem_cons] at hc
    rcases hc with (hc | hc) | rfl | rfl | hc
    · exact hds c (List.mem_of_mem_take hc)
    · exact isNumeral_printFraction (fun d hd => hds d (List.mem_of_mem_drop hd)) c hc
    · decide
    · decide
    · exact isNumeral_of_isDigit (isDigit_of_mem_printPadded hc)
  · simp only [List.mem_append, List.mem_cons] at hc
    rcases hc with (hc | hc) | rfl | rfl | hc
    · exact hds c (List.mem_of_mem_take hc)
    · exact isNumeral_printFraction (fun d hd => hds d (List.mem_of_mem_drop hd)) c hc
    · decide
    · decide
    · exact isNumeral_of_isDigit (isDigit_of_mem_printPadded hc)
  · rcases List.mem_cons.mp hc with rfl | hc
    · decide
    · refine isNumeral_printFraction (fun d hd => ?_) c hc
      rcases List.mem_append.mp hd with hd | hd
      · rw [(List.mem_replicate.mp hd).2]
        decide
      · exact hds d hd
  · rcases List.mem_append.mp hc with hc | hc
    · exact hds c (List.mem_of_mem_take hc)
    · exact isNumeral_printFraction (fun d hd => hds d (List.mem_of_mem_drop hd)) c hc

theorem printShort_ne_nil (q : ℚ) : printShort q ≠ [] := by
  have hne := printUnsigned_ne_nil (sixDigits q).1
  simp only [printShort]
  split_ifs <;> simp [hne]

/-- So are those of `%g`, whatever the double is. -/
theorem isNumeral_printGeneral (x : Float) : ∀ c ∈ printGeneral x, isNumeral c = true := by
  unfold printGeneral
  split
  · exact isNumeral_inf _
  · exact List.all_eq_true.mp (by decide)
  · rename_i s _
    exact List.all_eq_true.mp (by cases s <;> decide)
  · intro c hc
    rcases List.mem_append.mp hc with hc | hc
    · exact isNumeral_printSign _ c hc
    · exact isNumeral_printShort _ c hc

theorem printGeneral_ne_nil (x : Float) : printGeneral x ≠ [] := by
  unfold printGeneral
  split <;> simp [printShort_ne_nil]

/-- A 32-bit integer has ten digits at most. -/
theorem length_printInt_le (n : Int32) : (printInt n.toInt).length ≤ 11 := by
  have hle := n.le_toInt
  have hlt := n.toInt_lt
  have hdigits : (printUnsigned n.toInt.natAbs).length ≤ 10 :=
    (Nat.length_toDigits_le_iff (by decide) (by decide)).mpr (by omega)
  have hsign : (printSign (decide (n.toInt < 0))).length ≤ 1 := by
    cases decide (n.toInt < 0) <;> decide
  rw [printInt, List.length_append]
  omega

/-- Numbers that are equal and not zero are the same. -/
theorem unpack_congr {a b : Float} (h : SameNumber a b) (hb : (b == 0.0) = false) :
    a.toModel.unpack = b.toModel.unpack := by
  rcases h with rfl | h
  · rfl
  · rcases eq_or_zeros_of_compare (Float.beq_iff.mp h) with h | ⟨_, s, _, h⟩
    · exact h
    · -- only the two zeros are equal without being the same
      have hzero : (b == 0.0) = true := by
        rw [Float.beq_iff, h]
        cases s <;> decide
      rw [hb] at hzero
      cases hzero

/-! ## Numbers read back

The parser replaces a number out of range by a default. A number that was printed from the
record is never out of range unless it is not read back as it was. -/

/-- What `CONFIG_TSLIMIT` and the other metaparameters make of a text. -/
def scaleRead (k : ScaleKey) (v : Text) : Scale :=
  if h : strtod v < 0.0 then Quality.good.scale k else ⟨strtod v, h⟩

/-- What `CONFIG_PHAT_INIT` makes of a text. -/
def phatInitRead (v : Text) : PhatInit :=
  if h : strtod v < 0.0 ∨ strtod v == 0.0 ∨ 1.0 < strtod v then defaultPhatInit else ⟨strtod v, h⟩

/-- A metaparameter is read back exactly when its decimals denote it. -/
theorem scale_read_iff (k : ScaleKey) (x : Scale) :
    SameNumber (scaleRead k (printDouble 9 x.1)).1 x.1 ↔
      SameNumber (strtod (printDouble 9 x.1)) x.1 := by
  by_cases h : strtod (printDouble 9 x.1) < 0.0
  · rw [show scaleRead k (printDouble 9 x.1) = Quality.good.scale k from dif_pos h]
    -- out of range: the default, which is printed as a number in range
    refine iff_of_false (fun hsame => ?_) fun hsame => x.2 ((hsame.lt_left _).mp h)
    have hprint : printDouble 9 x.1 = printDouble 9 (Quality.good.value k) := by
      rw [printDouble, printDouble, unpack_congr hsame.symm (by cases k <;> decide)]
      rfl
    rw [hprint] at h
    revert h
    cases k <;> decide +kernel
  · rw [show scaleRead k (printDouble 9 x.1) = ⟨strtod (printDouble 9 x.1), h⟩ from dif_neg h]

/-- So is the initial period. -/
theorem phatInit_read_iff (x : PhatInit) :
    SameNumber (phatInitRead (printGeneral x.1)).1 x.1 ↔
      SameNumber (strtod (printGeneral x.1)) x.1 := by
  by_cases h : strtod (printGeneral x.1) < 0.0 ∨ strtod (printGeneral x.1) == 0.0 ∨
      1.0 < strtod (printGeneral x.1)
  · rw [show phatInitRead (printGeneral x.1) = defaultPhatInit from dif_pos h]
    -- out of range: the default, which is printed as a number in range
    refine iff_of_false (fun hsame => ?_) fun hsame => x.2 ?_
    · have hprint : printGeneral x.1 = printGeneral 1e-9 := by
        rw [printGeneral, printGeneral, unpack_congr hsame.symm (by decide)]
        rfl
      rw [hprint] at h
      revert h
      decide +kernel
    · rwa [hsame.lt_left, hsame.lt_right, hsame.beq] at h
  · rw [show phatInitRead (printGeneral x.1) = ⟨strtod (printGeneral x.1), h⟩ from dif_neg h]

/-- So is an asymmetry. -/
theorem asym_read_iff (x : Asym) :
    SameNumber (asymSlot.new (printDouble 6 x.1)).1 x.1 ↔
      SameNumber (strtod (printDouble 6 x.1)) x.1 := by
  by_cases h : strtod (printDouble 6 x.1) < 0.0 ∨ 1.0 < strtod (printDouble 6 x.1)
  · rw [show asymSlot.new (printDouble 6 x.1) = defaultAsym from dif_pos h]
    refine iff_of_false (fun hsame => ?_) fun hsame => x.2 ?_
    · -- A zero of either sign is printed as one, and read as one.
      have hzero : ∃ s, x.1.toModel.unpack = .zero s := by
        rcases hsame with heq | heq
        · exact ⟨.positive, by rw [← heq]; rfl⟩
        · rcases eq_or_zeros_of_compare (Float.beq_iff.mp heq) with heq | ⟨_, s, _, heq⟩
          · exact ⟨.positive, by rw [← heq]; rfl⟩
          · exact ⟨s, heq⟩
      obtain ⟨s, hs⟩ := hzero
      have hprint : printDouble 6 x.1 = printFixed 6 (isNegative s) 0 := by rw [printDouble, hs]
      rw [hprint] at h
      revert h
      cases s <;> decide
    · rwa [hsame.lt_left, hsame.lt_right] at h
  · rw [show asymSlot.new (printDouble 6 x.1) = ⟨strtod (printDouble 6 x.1), h⟩ from dif_neg h]

/-- Integers are read back. -/
theorem atoi_printInt (n : Int32) : atoi (printInt n.toInt) = n := by
  have h := scanInt_print n delimited_nil
  rw [List.append_nil] at h
  rw [atoi, h]

/-- A polling period is in its range, and read back. -/
theorem pollPeriod_read (n : PollPeriod) : pollPeriodSlot.new (printInt n.1.toInt) = n := by
  have hrange : 1 ≤ (atoi (printInt n.1.toInt)).toInt ∧
      (atoi (printInt n.1.toInt)).toInt ≤ 1024 := by
    rw [atoi_printInt]
    exact n.2
  exact (dif_pos hrange).trans (Subtype.ext (atoi_printInt n.1))

/-- Every label of an option is found again at its own number. -/
theorem option_read_label (k : OptionKey) :
    ∀ i : Fin k.labels.length, (optionSlot k).new k.labels[i] = i := by
  cases k <;> decide

/-- An option is read back by its label. -/
theorem option_read {k : OptionKey} {i : Nat} {label : Text} (h : k.labels[i]? = some label) :
    (optionSlot k).new label = i := by
  obtain ⟨hi, rfl⟩ := List.getElem?_eq_some_iff.mp h
  exact option_read_label k ⟨i, hi⟩

/-! ## Settings that fit -/

/-- The line of a setting can be read back. -/
def LineFits (k : Key) (v : Text) : Prop :=
  Clean v ∧ (findKeyLabel k).length + 3 + v.length < MAXLINE

instance (v : Text) : Decidable (Clean v) := inferInstanceAs (Decidable (v = ['\n'] ∨ Plain v))

instance (k : Key) (v : Text) : Decidable (LineFits k v) :=
  inferInstanceAs (Decidable (Clean v ∧ (findKeyLabel k).length + 3 + v.length < MAXLINE))

/-- Plain values of moderate length fit, since the labels are short. -/
theorem lineFits_of_plain {k : Key} (hk : k ≠ .unknown) {v : Text} (hv : Plain v)
    (hlen : v.length ≤ 226) : LineFits k v := by
  have hmax : MAXLINE = 250 := rfl
  have hlabel := (isLabel_findKeyLabel hk).2
  exact ⟨.inr hv, by omega⟩

theorem LineFits.item {k : Key} (hk : k ≠ .unknown) {v : Text} (h : LineFits k v) :
    (Item.setting (findKeyLabel k) v).Fits := ⟨(isLabel_findKeyLabel hk).1, h⟩

/-- The label of an option fits. -/
theorem lineFits_option {c : RadclockConfig} {k : OptionKey} {label : Text}
    (h : k.labels[c.option k]? = some label) : LineFits (.option k) label := by
  have hall : ∀ l ∈ labelsVerb ++ labelsSync ++ labelsBool, Plain l ∧ l.length ≤ 226 := by decide
  have hmem : label ∈ labelsVerb ++ labelsSync ++ labelsBool := by
    have := List.mem_of_getElem? h
    cases k <;> simp_all [OptionKey.labels]
  obtain ⟨hplain, hlen⟩ := hall label hmem
  exact lineFits_of_plain (by simp) hplain hlen

/-- An integer fits. -/
theorem lineFits_int {k : Key} (hk : k ≠ .unknown) (n : Int32) :
    LineFits k (printInt n.toInt) := by
  refine lineFits_of_plain hk (plain_of_isNumeral (isNumeral_printInt _) ?_)
    (le_trans (length_printInt_le n) (by decide))
  simp [printInt, printUnsigned_ne_nil]

section
variable {packageVersion : Text} {c : RadclockConfig} {ns : Nat}

/-- The floating-point numbers of the file. -/
inductive IsNumber (c : RadclockConfig) : Key × Text → Prop
  | scale (h : getTemperatureConfig c = none) (k : ScaleKey) : IsNumber c (scaleEntry c k)
  | phatInit : IsNumber c (.phatInit, printGeneral c.phatInit.1)
  | asym (k : AsymKey) : IsNumber c (asymEntry c k)

/-- The printed numbers of a file have the characters of a number. -/
theorem IsNumber.numeral {e : Key × Text} (h : IsNumber c e) :
    (∀ d ∈ e.2, isNumeral d = true) ∧ e.2 ≠ [] := by
  cases h with
  | scale _ k => exact ⟨isNumeral_printDouble _ _, printDouble_ne_nil _ _⟩
  | phatInit => exact ⟨isNumeral_printGeneral _, printGeneral_ne_nil _⟩
  | asym k => exact ⟨isNumeral_printDouble _ _, printDouble_ne_nil _ _⟩

/-- A setting of the file is one that fits, a number, a text or the name of a server. -/
theorem settings_cases (hver : Plain packageVersion) (hshort : packageVersion.length ≤ 226)
    (hoption : ∀ k : OptionKey, (k.labels[c.option k]?).isSome = true) {e : Key × Text}
    (he : e ∈ settings packageVersion c ns) :
    LineFits e.1 e.2 ∨ IsNumber c e ∨ (∃ k, c.text k ≠ [] ∧ e = (.text k, c.text k)) ∨
      (c.timeServer.block 0 ≠ [] ∧ ∃ name ∈ serverNames c ns, e = (.timeServer, name)) := by
  have hopt : ∀ k, e = optionEntry c k → LineFits e.1 e.2 := by
    rintro k rfl
    obtain ⟨label, hlabel⟩ := Option.isSome_iff_exists.mp (hoption k)
    rw [optionEntry, hlabel]
    exact lineFits_option hlabel
  have htext : ∀ k, e ∈ textEntry c k → c.text k ≠ [] ∧ e = (.text k, c.text k) := by
    intro k hk
    unfold textEntry at hk
    split_ifs at hk with hempty
    · cases hk
    · exact ⟨hempty, List.mem_singleton.mp hk⟩
  simp only [settings, List.mem_append, List.mem_cons, List.not_mem_nil, or_false, or_assoc] at he
  -- the settings in the order they are written
  rcases he with rfl | he | he | rfl | he | he | he | he | he | he | he | he | he | he | he | he |
    rfl | rfl | rfl | he | he | he | he | he | he
  · exact .inl (lineFits_of_plain (by simp) hver hshort)
  · exact .inl (hopt _ he)
  · exact .inl (hopt _ he)
  · exact .inl (lineFits_int (by simp) _)
  · exact .inr (.inr (.inl ⟨_, htext _ he⟩))
  · unfold serverEntries at he
    split_ifs at he with hempty
    · rw [List.mem_singleton.mp he]
      exact .inl (lineFits_of_plain (by simp) (by decide) (by decide))
    · obtain ⟨name, hname, rfl⟩ := List.mem_map.mp he
      exact .inr (.inr (.inr ⟨hempty, name, hname, rfl⟩))
  · exact .inl (hopt _ he)
  · exact .inl (hopt _ he)
  · exact .inr (.inr (.inl ⟨_, htext _ he⟩))
  · exact .inl (hopt _ he)
  · exact .inl (hopt _ he)
  · exact .inl (hopt _ he)
  · exact .inl (hopt _ he)
  · exact .inl (hopt _ he)
  · unfold qualityEntries at he
    split at he
    · rename_i q _
      rw [List.mem_singleton.mp he]
      exact .inl (lineFits_of_plain (by simp) (by cases q <;> decide) (by cases q <;> decide))
    · cases he
  · unfold expertEntries at he
    split at he
    · cases he
    · rename_i hnone
      simp only [List.mem_cons, List.not_mem_nil, or_false] at he
      rcases he with rfl | rfl | rfl | rfl | rfl | rfl
      · exact .inr (.inl (.scale hnone _))
      · exact .inr (.inl (.scale hnone _))
      · exact .inr (.inl (.scale hnone _))
      · exact .inr (.inl (.scale hnone _))
      · exact .inl (lineFits_int (by simp) _)
      · exact .inr (.inl (.scale hnone _))
  · exact .inr (.inl .phatInit)
  · exact .inr (.inl (.asym _))
  · exact .inr (.inl (.asym _))
  · exact .inr (.inr (.inl ⟨_, htext _ he⟩))
  · exact .inr (.inr (.inl ⟨_, htext _ he⟩))
  · exact .inr (.inr (.inl ⟨_, htext _ he⟩))
  · exact .inr (.inr (.inl ⟨_, htext _ he⟩))
  · exact .inr (.inr (.inl ⟨_, htext _ he⟩))
  · exact .inr (.inr (.inl ⟨_, htext _ he⟩))

/-! ## The values of the file, key by key -/

/-- The values of a key in two parts of a file. -/
theorem valuesOf_append (key : Key) (es fs : List (Key × Text)) :
    valuesOf key (es ++ fs) = valuesOf key es ++ valuesOf key fs := List.filterMap_append ..

theorem valuesOf_nil (key : Key) : valuesOf key [] = [] := rfl

/-- A value of a key is a setting with that key. -/
theorem mem_of_mem_valuesOf {key : Key} {es : List (Key × Text)} {v : Text}
    (h : v ∈ valuesOf key es) : (key, v) ∈ es := by
  obtain ⟨e, he, hv⟩ := List.mem_filterMap.mp h
  split_ifs at hv with hk
  cases hv
  exact hk ▸ he

/-- A text has one value or, if it is empty, none. -/
theorem valuesOf_textEntry (key : Key) (k : TextKey) : valuesOf key (textEntry c k) =
    if .text k = key ∧ c.text k ≠ [] then [c.text k] else [] := by
  unfold textEntry
  -- an empty text is not written
  by_cases hempty : c.text k = []
  · rw [if_pos hempty, if_neg (by simp [hempty]), valuesOf_nil]
  · rw [if_neg hempty, valuesOf_cons, valuesOf_nil]
    simp only [hempty, ne_eq, not_false_eq_true, and_true]

/-- The server key has the names, or the default server. -/
theorem valuesOf_serverEntries (key : Key) : valuesOf key (serverEntries c ns) =
    if key = .timeServer then
      if c.timeServer.block 0 = [] then ["tock.une.edu.au".toList] else serverNames c ns
    else [] := by
  have hmap : ∀ names : List Text, valuesOf key (names.map fun name => (Key.timeServer, name)) =
      if key = .timeServer then names else [] := by
    intro names
    induction names with
    | nil => simp [valuesOf_nil]
    | cons name names ih =>
      rw [List.map_cons, valuesOf_cons, ih]
      by_cases hkey : key = .timeServer <;> simp [hkey, eq_comm]
  unfold serverEntries
  split_ifs with hempty hkey hkey
  · subst hkey
    rfl
  · rw [valuesOf_cons, if_neg (Ne.symm hkey), valuesOf_nil]
  · rw [hmap, if_pos hkey]
  · rw [hmap, if_neg hkey]

/-- Only the keys of the metaparameters stand for the temperature environment. -/
theorem valuesOf_tempEntries (key : Key) (hkey : key.bit ≠ some .tempQuality) :
    valuesOf key (qualityEntries c) = [] ∧ valuesOf key (expertEntries c) = [] := by
  unfold qualityEntries expertEntries
  have hne : ∀ k : Key, k.bit = some .tempQuality → k ≠ key := by
    rintro k hk rfl
    exact hkey hk
  cases getTemperatureConfig c with
  | some q => simp [valuesOf_cons, valuesOf_nil, hne .tempQuality rfl]
  | none =>
    simp [valuesOf_cons, valuesOf_nil, scaleEntry, hne (.scale _) rfl, hne .offsetRatio rfl]

/-- The values that the file gives to a key, those of the metaparameters apart. -/
def writtenValues (packageVersion : Text) (c : RadclockConfig) (ns : Nat) : Key → List Text
  | .radclockVersion => [packageVersion]
  | .option k => [(k.labels[c.option k]?).getD []]
  | .pollPeriod => [printInt c.pollPeriod.1.toInt]
  | .phatInit => [printGeneral c.phatInit.1]
  | .asym k => [printDouble 6 (c.asym k).1]
  | .text k => if c.text k = [] then [] else [c.text k]
  | .timeServer =>
    if c.timeServer.block 0 = [] then ["tock.une.edu.au".toList] else serverNames c ns
  | _ => []

/-- Key by key, the values of the file that is written. -/
theorem valuesOf_settings (key : Key) (hkey : key.bit ≠ some .tempQuality) :
    valuesOf key (settings packageVersion c ns) = writtenValues packageVersion c ns key := by
  obtain ⟨hquality, hexpert⟩ := valuesOf_tempEntries (c := c) key hkey
  simp only [settings, valuesOf_append, valuesOf_textEntry, valuesOf_serverEntries, hquality,
    hexpert, valuesOf_cons, valuesOf_nil, optionEntry, asymEntry]
  cases key with
  | option k => cases k <;> simp [writtenValues]
  | asym k => cases k <;> simp [writtenValues]
  | text k => cases k <;> simp [writtenValues]
  | scale k => exact absurd rfl hkey
  | offsetRatio => exact absurd rfl hkey
  | tempQuality => exact absurd rfl hkey
  | timeServer => simp only [reduceCtorEq, false_and, if_false, if_true, List.nil_append,
    List.append_nil, writtenValues]
  | _ => simp [writtenValues]

/-! ## The temperature environment -/

/-- The lines of the temperature environment are found among the settings of its bit. -/
theorem tempLines_filter (es : List (Key × Text)) : ∀ all, tempLines all es =
    tempLines all (es.filter fun e => e.1.bit = some .tempQuality) := by
  induction es with
  | nil => exact fun all => rfl
  | cons e es ih =>
    intro all
    obtain ⟨k, v⟩ := e
    -- lines of other keys give nothing, and are no keyword
    by_cases hk : k.bit = some .tempQuality
    · rw [List.filter_cons_of_pos (by simpa using hk), tempLines, tempLines, ih]
    · rw [List.filter_cons_of_neg (by simpa using hk), tempLines, ih]
      have hline : tempLine all k v = none := by
        cases k <;> first | rfl | exact absurd rfl hk
      have hne : k ≠ .tempQuality := by
        rintro rfl
        exact hk rfl
      simp [hline, hne]

/-- These are the keyword or the six numbers. -/
theorem filter_settings : (settings packageVersion c ns).filter
    (fun e => e.1.bit = some .tempQuality) = qualityEntries c ++ expertEntries c := by
  have htext : ∀ k, (textEntry c k).filter (fun e => e.1.bit = some .tempQuality) = [] := by
    intro k
    unfold textEntry
    split_ifs <;> simp [Key.bit]
  have hserver : (serverEntries c ns).filter (fun e => e.1.bit = some .tempQuality) = [] := by
    unfold serverEntries
    split_ifs <;> simp [Key.bit, List.filter_eq_nil_iff]
  have hquality : (qualityEntries c).filter (fun e => e.1.bit = some .tempQuality) =
      qualityEntries c := by
    unfold qualityEntries
    split <;> simp [Key.bit]
  have hexpert : (expertEntries c).filter (fun e => e.1.bit = some .tempQuality) =
      expertEntries c := by
    unfold expertEntries
    split <;> simp [Key.bit, scaleEntry]
  simp only [settings, List.filter_append, htext, hserver, hquality, hexpert]
  simp [Key.bit, optionEntry, asymEntry]

/-- A keyword stands for the metaparameters it is written for. -/
theorem same_of_getTemperatureConfig {q : Quality} (h : getTemperatureConfig c = some q) :
    c.temp.Same q.temp := by
  have hq := List.find?_some h
  simp only [Bool.and_eq_true, beq_iff_eq] at hq
  obtain ⟨⟨⟨⟨⟨h₁, h₂⟩, h₃⟩, h₄⟩, h₅⟩, h₆⟩ := hq
  refine ⟨fun k => .inr ?_, h₅⟩
  cases k with
  | tslimit => exact h₁
  | rateErrBound => exact h₂
  | skmScale => exact h₃
  | bestSkmRate => exact h₄
  | plocalQuality => exact h₆

/-- The lines of the file that count for the metaparameters. -/
def writtenLines (c : RadclockConfig) : List TempLine :=
  match getTemperatureConfig c with
  | some q => [.keyword q]
  | none =>
    [.scale .tslimit (strtod (printDouble 9 (c.scale .tslimit).1)),
     .scale .skmScale (strtod (printDouble 9 (c.scale .skmScale).1)),
     .scale .rateErrBound (strtod (printDouble 9 (c.scale .rateErrBound).1)),
     .scale .bestSkmRate (strtod (printDouble 9 (c.scale .bestSkmRate).1)),
     .offsetRatio c.offsetRatio.1,
     .scale .plocalQuality (strtod (printDouble 9 (c.scale .plocalQuality).1))]

theorem tempLines_settings :
    tempLines false (settings packageVersion c ns) = writtenLines c := by
  rw [tempLines_filter, filter_settings]
  unfold qualityEntries expertEntries writtenLines
  cases getTemperatureConfig c with
  | some q =>
    have hq : findQuality q.label = some q := by cases q <;> decide
    simp only [List.append_nil, tempLines, tempLine, hq, Option.map_some, Option.toList_some]
  | none =>
    simp only [List.nil_append, scaleEntry, tempLines, tempLine, Bool.false_or, reduceCtorEq,
      decide_false, Bool.false_eq_true, if_false, Option.toList_some, List.cons_append,
      atoi_printInt]

/-- What the file makes of the metaparameters, whatever they were. -/
theorem after_settings (old : Temp) :
    old.after (tempLines false (settings packageVersion c ns)) =
      match getTemperatureConfig c with
      | some q => q.temp
      | none => ⟨fun k => scaleRead k (printDouble 9 (c.scale k).1), c.offsetRatio⟩ := by
  rw [tempLines_settings]
  unfold writtenLines
  cases getTemperatureConfig c with
  | some q => rfl
  | none =>
    have hratio : (TempLine.offsetRatio c.offsetRatio.1).offsetOf = some c.offsetRatio :=
      congrArg some (dif_pos c.offsetRatio.2)
    unfold Temp.after
    congr 1
    · funext k
      cases k <;> rfl
    · simp only [List.reverse_cons, List.reverse_nil, List.nil_append, List.cons_append,
        List.findSome?_cons, hratio]
      rfl

end

/-! ## The file, read again -/

/-- What a fresh configuration is after the settings have been read. -/
structure Reread (packageVersion : Text) (c : RadclockConfig) (ns : Nat) (st : ParseState) :
    Prop where
  version : st.conf.radclockVersion = packageVersion
  option : st.conf.option = c.option
  pollPeriod : st.conf.pollPeriod = c.pollPeriod
  temp : st.conf.temp = match getTemperatureConfig c with
    | some q => q.temp
    | none => ⟨fun k => scaleRead k (printDouble 9 (c.scale k).1), c.offsetRatio⟩
  phatInit : st.conf.phatInit = phatInitRead (printGeneral c.phatInit.1)
  asym : ∀ k, st.conf.asym k = asymSlot.new (printDouble 6 (c.asym k).1)
  text : st.conf.text = c.text
  servers : serverNames st.conf st.nf = writtenValues packageVersion c ns .timeServer

/-- The first line of a key, on a field that nothing has touched. -/
theorem step_fresh {α : Type} (s : Slot α) (b : Bit) (a : α) (v : Text) :
    s.step (isSet UPDMASK_NOUPD b, a) v = (s.differs a v, s.new v) := by
  rw [isSet_noupd]
  rfl

/-- A fresh configuration that reads the settings has them. -/
theorem reread (packageVersion : Text) (c : RadclockConfig) (ns : Nat)
    (hoption : ∀ k : OptionKey, (k.labels[c.option k]?).isSome = true) (fresh : RadclockConfig)
    (hfresh : ∀ k, fresh.text k = []) :
    Reread packageVersion c ns (applied 0 (settings packageVersion c ns)
      ⟨fresh, UPDMASK_NOUPD, 0, false⟩) where
  version := by
    rw [applied_version, versionOf, valuesOf_settings _ (by simp [Key.bit])]
    rfl
  option := by
    funext k
    obtain ⟨label, hlabel⟩ := Option.isSome_iff_exists.mp (hoption k)
    -- each slot finds exactly the line written for it
    have h := applied_option k 0 (settings packageVersion c ns) ⟨fresh, UPDMASK_NOUPD, 0, false⟩
    rw [valuesOf_settings _ (by simp [Key.bit]), writtenValues, hlabel, Option.getD_some,
      List.foldl_cons, List.foldl_nil, step_fresh, option_read hlabel] at h
    exact (Prod.mk.inj h).2
  pollPeriod := by
    have h := applied_pollPeriod 0 (settings packageVersion c ns) ⟨fresh, UPDMASK_NOUPD, 0, false⟩
    rw [valuesOf_settings _ (by simp [Key.bit]), writtenValues, List.foldl_cons, List.foldl_nil,
      step_fresh, pollPeriod_read] at h
    exact (Prod.mk.inj h).2
  temp := by
    rw [(applied_temp 0 _ _).2, after_settings]
  phatInit := by
    rw [applied_last .phatInit (fun c => c.phatInit) phatInitRead (fun _ _ _ => rfl)
      (fun ns st k v hk => (updateState_unmarked ns st k v).2 hk),
      valuesOf_settings _ (by simp [Key.bit])]
    rfl
  asym k := by
    have h := applied_asym k 0 (settings packageVersion c ns) ⟨fresh, UPDMASK_NOUPD, 0, false⟩
    rw [valuesOf_settings _ (by simp [Key.bit]), writtenValues, List.foldl_cons, List.foldl_nil,
      step_fresh] at h
    exact (Prod.mk.inj h).2
  text := by
    funext k
    have h := applied_text k 0 (settings packageVersion c ns) ⟨fresh, UPDMASK_NOUPD, 0, false⟩
    rw [valuesOf_settings _ (by simp [Key.bit]), writtenValues] at h
    split_ifs at h with hempty
    · exact (Prod.mk.inj h).2.trans ((hfresh k).trans hempty.symm)
    · rw [List.foldl_cons, List.foldl_nil, step_fresh] at h
      exact (Prod.mk.inj h).2
  servers := by
    rw [serverNames_applied 0 _ _ rfl (isSet_noupd _), valuesOf_settings _ (by simp [Key.bit])]

/-! ## Same configurations -/

/-- Every field of the file has the same value, and the servers are the same. -/
structure SameConf (conf : RadclockConfig) (ns : Nat) (conf' : RadclockConfig) (ns' : Nat) :
    Prop where
  version : conf'.radclockVersion = conf.radclockVersion
  option : conf'.option = conf.option
  pollPeriod : conf'.pollPeriod = conf.pollPeriod
  temp : conf'.temp.Same conf.temp
  phatInit : SameNumber conf'.phatInit.1 conf.phatInit.1
  asym : ∀ k, SameNumber (conf'.asym k).1 (conf.asym k).1
  text : conf'.text = conf.text
  servers : serverNames conf' ns' = serverNames conf ns

/-- Dropping the input files of a daemon keeps configurations the same. -/
theorem SameConf.live {conf conf' : RadclockConfig} {ns ns' : Nat} (h : SameConf conf ns conf' ns')
    (isDaemon : Bool) :
    SameConf (liveInput isDaemon conf) ns (liveInput isDaemon conf') ns' := by
  cases isDaemon with
  | false => exact h
  | true =>
    refine ⟨h.version, h.option, h.pollPeriod, h.temp, h.phatInit, h.asym, ?_, h.servers⟩
    funext k
    rw [liveInput_text, liveInput_text, h.text]

/-- What a configuration must satisfy to be read as it was written, `ns` being the number of its
servers: every line fits into the buffer of the parser, every number is the one that its
decimals denote, and there is a server, so that none is made up. -/
structure Survives (c : RadclockConfig) (ns : Nat) : Prop where
  text : ∀ k, c.text k ≠ [] → LineFits (.text k) (c.text k)
  server : c.timeServer.block 0 ≠ []
  servers : ∀ name ∈ serverNames c ns, LineFits .timeServer name
  scale : getTemperatureConfig c = none → ∀ k,
    LineFits (.scale k) (printDouble 9 (c.scale k).1) ∧
      SameNumber (strtod (printDouble 9 (c.scale k).1)) (c.scale k).1
  phatInit : LineFits .phatInit (printGeneral c.phatInit.1) ∧
    SameNumber (strtod (printGeneral c.phatInit.1)) c.phatInit.1
  asym : ∀ k, LineFits (.asym k) (printDouble 6 (c.asym k).1) ∧
    SameNumber (strtod (printDouble 6 (c.asym k).1)) (c.asym k).1

section
variable {packageVersion : Text} {c : RadclockConfig} {ns : Nat}

/-- Every number that is written is a setting of the file. -/
theorem IsNumber.mem {e : Key × Text} (h : IsNumber c e) : e ∈ settings packageVersion c ns := by
  cases h with
  | scale h k =>
    have hmem : scaleEntry c k ∈ expertEntries c := by
      rw [expertEntries, h]
      cases k <;> simp
    simp only [settings, List.mem_append, hmem, or_true, true_or]
  | phatInit => simp [settings]
  | asym k => cases k <;> simp [settings]

/-- So is every text. -/
theorem text_mem {k : TextKey} (h : c.text k ≠ []) :
    (.text k, c.text k) ∈ settings packageVersion c ns := by
  have hmem : (.text k, c.text k) ∈ textEntry c k := by simp [textEntry, h]
  cases k <;> simp only [settings, List.mem_append, hmem, or_true, true_or]

/-- So is every server. -/
theorem server_mem (h : c.timeServer.block 0 ≠ []) {name : Text} (hname : name ∈ serverNames c ns) :
    (.timeServer, name) ∈ settings packageVersion c ns := by
  have hmem : (.timeServer, name) ∈ serverEntries c ns := by simp [serverEntries, h, hname]
  simp only [settings, List.mem_append, hmem, or_true, true_or]

/-- The settings of a configuration that survives fit. -/
theorem Survives.lineFits (hver : Plain packageVersion) (hshort : packageVersion.length ≤ 226)
    (hoption : ∀ k : OptionKey, (k.labels[c.option k]?).isSome = true) (h : Survives c ns)
    {e : Key × Text} (he : e ∈ settings packageVersion c ns) : LineFits e.1 e.2 := by
  rcases settings_cases hver hshort hoption he with hfits | hnum | ⟨k, hne, rfl⟩ |
    ⟨_, name, hname, rfl⟩
  · exact hfits
  · cases hnum with
    | scale hnone k => exact (h.scale hnone k).1
    | phatInit => exact h.phatInit.1
    | asym k => exact (h.asym k).1
  · exact h.text k hne
  · exact h.servers name hname

/-- Without a server the file gets the name of one. -/
theorem writtenServers_iff : writtenValues packageVersion c ns .timeServer = serverNames c ns ↔
    c.timeServer.block 0 ≠ [] := by
  rw [writtenValues]
  split_ifs with hempty
  · refine iff_of_false (fun heq => ?_) (fun hne => hne hempty)
    have hget := congrArg (fun l => l[0]?) heq
    cases ns with
    | zero => cases hget
    | succ n =>
      have hfirst : (serverNames c (n + 1))[0]? = some [] := by
        simp [serverNames, hempty]
      simp only [hfirst] at hget
      cases hget
  · simp [hempty]

/-- Once the settings have been read, the configuration is the same if and only if the rest of the
condition holds. -/
theorem sameConf_iff {st : ParseState} (h : Reread packageVersion c ns st) :
    SameConf { c with radclockVersion := packageVersion } ns st.conf st.nf ↔
      c.timeServer.block 0 ≠ [] ∧
      (getTemperatureConfig c = none → ∀ k,
        SameNumber (strtod (printDouble 9 (c.scale k).1)) (c.scale k).1) ∧
      SameNumber (strtod (printGeneral c.phatInit.1)) c.phatInit.1 ∧
      ∀ k, SameNumber (strtod (printDouble 6 (c.asym k).1)) (c.asym k).1 := by
  have htemp : st.conf.temp.Same c.temp ↔ (getTemperatureConfig c = none → ∀ k,
      SameNumber (strtod (printDouble 9 (c.scale k).1)) (c.scale k).1) := by
    rw [h.temp]
    cases hq : getTemperatureConfig c with
    | some q => simp [(same_of_getTemperatureConfig hq).symm]
    | none =>
      simp only [true_imp_iff]
      constructor
      · exact fun hsame k => (scale_read_iff k (c.scale k)).mp (hsame.scale k)
      · exact fun hsame => ⟨fun k => (scale_read_iff k (c.scale k)).mpr (hsame k), rfl⟩
  -- without a server one is made up, so the list cannot be the same
  have hservers : serverNames st.conf st.nf = serverNames c ns ↔ c.timeServer.block 0 ≠ [] := by
    rw [h.servers]
    exact writtenServers_iff
  constructor
  · intro hsame
    refine ⟨hservers.mp hsame.servers, htemp.mp hsame.temp, ?_, fun k => ?_⟩
    · rw [← phatInit_read_iff, ← h.phatInit]
      exact hsame.phatInit
    · rw [← asym_read_iff, ← h.asym k]
      exact hsame.asym k
  · rintro ⟨hserver, hscale, hphat, hasym⟩
    refine ⟨h.version, h.option, h.pollPeriod, htemp.mpr hscale, ?_, fun k => ?_, h.text,
      hservers.mpr hserver⟩
    · rw [h.phatInit]
      exact (phatInit_read_iff _).mpr hphat
    · rw [h.asym k]
      exact (asym_read_iff _).mpr (hasym k)

end

/-! ## The parse that upgrades, and the parse of its file -/

section
variable {packageVersion key text : Text} {isDaemon : Bool} {conf : RadclockConfig} {mask : UInt32}
  {ns : Nat}

/-- A file whose lines can all be read is parsed to its end. -/
theorem parseLines_of_entries (ns : Nat) {lines : List Text} (h : (entries key lines).2 = true)
    (st : ParseState) :
    (parseLines ns key lines st).res = some (applied ns (entries key lines).1 st) := by
  rw [parseLines_eq, h]
  change (Exec.bind _ _).res = _
  rw [Exec.bind, applyEntries_res]
  rfl

/-- The configuration that is written over an outdated file. -/
def writtenConf (ns : Nat) (key text : Text) (conf : RadclockConfig) (mask : UInt32) :
    RadclockConfig :=
  trimServers ns (parsedState ns key text conf mask).nf (parsedState ns key text conf mask).conf

/-- What a parse leaves when the file is outdated: the configuration, and the file written from
it. -/
theorem configParse_outdated {p : Parsed}
    (hold : (writtenConf ns key text conf mask).radclockVersion ≠ packageVersion)
    (h : (configParse packageVersion key isDaemon ⟨some text, true⟩ conf mask ns).res = some p) :
    ∃ items, configItems packageVersion (some (writtenConf ns key text conf mask))
        (parsedState ns key text conf mask).nf = some items ∧
      p = ⟨true, liveInput isDaemon
          { writtenConf ns key text conf mask with radclockVersion := packageVersion },
        (parsedState ns key text conf mask).mask, (parsedState ns key text conf mask).nf,
        some (items.flatMap Item.render)⟩ := by
  unfold configParse at h
  simp only at h
  obtain ⟨st, hst, h⟩ := Exec.bind_res_some.mp h
  obtain ⟨_, heq⟩ := parseLines_res hst
  have hst' : parsedState ns key text conf mask = st := heq.symm
  unfold writtenConf at hold ⊢
  rw [hst'] at hold ⊢
  rw [if_neg hold, if_pos trivial] at h
  obtain ⟨t, ht, h⟩ := Exec.bind_res_some.mp h
  cases hw : writeConfigFile packageVersion (some (trimServers ns st.nf st.conf)) st.nf with
  | none =>
    rw [hw] at ht
    cases ht
  | some t' =>
    rw [hw] at ht
    cases ht
    cases h
    obtain ⟨items, hitems, rfl⟩ := Option.map_eq_some_iff.mp hw
    exact ⟨items, hitems, rfl⟩

/-- What a parse leaves when the file is current: the configuration, and the file as it was. -/
theorem configParse_current (isDaemon : Bool) (hok : (entries key (linesOf text)).2 = true)
    (hver : (writtenConf ns key text conf mask).radclockVersion = packageVersion) :
    (configParse packageVersion key isDaemon ⟨some text, true⟩ conf mask ns).res =
      some ⟨true, liveInput isDaemon (writtenConf ns key text conf mask),
        (parsedState ns key text conf mask).mask, (parsedState ns key text conf mask).nf,
        some text⟩ := by
  unfold configParse
  simp only
  have hst : (parseLines ns key (readLines (MAXLINE - 1) [] text) ⟨conf, mask, 0, false⟩).res =
      some (parsedState ns key text conf mask) := parseLines_of_entries ns hok _
  refine Exec.bind_res_some.mpr ⟨_, hst, ?_⟩
  unfold writtenConf at hver ⊢
  rw [if_pos hver]
  rfl

/-- The options of a configuration that can be written have labels. -/
theorem isSome_label_of_configItems {c : RadclockConfig} {items : List Item}
    (h : configItems packageVersion (some c) ns = some items) (k : OptionKey) :
    (k.labels[c.option k]?).isSome = true := by
  have hsome : ∀ {j : OptionKey} {xs : List Item}, optionSetting (some c) j = some xs →
      (j.labels[c.option j]?).isSome = true := by
    intro j xs hj
    obtain ⟨label, hlabel, _⟩ := Option.map_eq_some_iff.mp hj
    exact Option.isSome_iff_exists.mpr ⟨label, hlabel⟩
  unfold configItems clientPart serverPart at h
  simp only [Option.bind_eq_bind, Option.bind_eq_some_iff, Option.pure_def, Option.some.injEq] at h
  obtain ⟨_, ⟨_, hverbose, _, hsynchroType, _⟩, _,
    ⟨_, hipc, _, hvmUdp, _, hxen, _, hvmware, _, hntp,
    _, hff, _, hfb, _⟩, _⟩ := h
  cases k with
  | verbose => exact hsome hverbose
  | synchroType => exact hsome hsynchroType
  | serverIpc => exact hsome hipc
  | serverVmUdp => exact hsome hvmUdp
  | serverXen => exact hsome hxen
  | serverVmware => exact hsome hvmware
  | serverNtp => exact hsome hntp
  | adjustFFclock => exact hsome hff
  | adjustFBclock => exact hsome hfb

/-- The entries of a file that was written from settings that fit. -/
theorem entries_written {c : RadclockConfig} {items : List Item}
    (h : configItems packageVersion (some c) ns = some items) (hfits : ∀ i ∈ items, i.Fits)
    (key : Text) :
    entries key (linesOf (items.flatMap Item.render)) = (settings packageVersion c ns, true) := by
  obtain ⟨key', hkey⟩ := entries_items items key [] hfits
  rw [List.append_nil] at hkey
  rw [hkey, (says_configItems h).entries]
  simp [linesOf, readLines, entries]

/-- The file that was written is read without being written again. -/
theorem configParse_written {c : RadclockConfig} {items : List Item}
    (h : configItems packageVersion (some c) ns = some items) (hfits : ∀ i ∈ items, i.Fits)
    (key : Text) (isDaemon : Bool) (beyond : Nat → Text) :
    ∃ st mask' file, Reread packageVersion c ns st ∧
      (configParse packageVersion key isDaemon ⟨some (items.flatMap Item.render), true⟩
        (configInit packageVersion beyond) UPDMASK_NOUPD 0).res =
        some ⟨true, liveInput isDaemon st.conf, mask', st.nf, file⟩ := by
  have hentries := entries_written h hfits key
  have hreread := reread packageVersion c ns (isSome_label_of_configItems h)
    (configInit packageVersion beyond) (fun _ => rfl)
  have hst : parsedState 0 key (items.flatMap Item.render) (configInit packageVersion beyond)
      UPDMASK_NOUPD = applied 0 (settings packageVersion c ns)
        ⟨configInit packageVersion beyond, UPDMASK_NOUPD, 0, false⟩ :=
    congrArg (fun es => applied 0 es ⟨configInit packageVersion beyond, UPDMASK_NOUPD, 0, false⟩)
      (congrArg Prod.fst hentries)
  have hconf : writtenConf 0 key (items.flatMap Item.render) (configInit packageVersion beyond)
      UPDMASK_NOUPD = (applied 0 (settings packageVersion c ns)
        ⟨configInit packageVersion beyond, UPDMASK_NOUPD, 0, false⟩).conf := by
    rw [writtenConf, hst, trimServers, if_neg (Nat.not_lt_zero _)]
  -- the version of the file is that of the package, so nothing is written
  have hparse := configParse_current isDaemon (congrArg Prod.snd hentries)
    ((congrArg RadclockConfig.radclockVersion hconf).trans hreread.version)
  rw [hconf, hst] at hparse
  exact ⟨_, _, _, hreread, hparse⟩

end

/-! ## Texts that a file can carry -/

/-- The texts are empty or could be values of a file. -/
def Tidy (conf : RadclockConfig) : Prop := ∀ k, conf.text k = [] ∨ Clean (conf.text k)

/-- A fresh configuration has no texts. -/
theorem tidy_configInit (packageVersion : Text) (beyond : Nat → Text) :
    Tidy (configInit packageVersion beyond) := fun _ => .inl rfl

/-- A line with a clean value keeps the texts tidy. -/
theorem tidy_updateState {ns : Nat} {st : ParseState} (h : Tidy st.conf) (k : Key) {v : Text}
    (hv : Clean v) : Tidy (updateState ns st k v).conf := by
  intro j
  by_cases hk : k = .text j
  · subst hk
    simp only [updateState, updateField, textCase, guarded]
    split
    · exact h j
    · simp only [Function.update_self]
      exact .inr hv
  · rw [(updateState_frame ns st k v).2.2.2.1 j (bit_ne (.text j) rfl (by simp) hk)]
    exact h j

/-- So do any number of lines. -/
theorem tidy_applied {ns : Nat} (es : List (Key × Text)) :
    ∀ st : ParseState, Tidy st.conf → (∀ e ∈ es, Clean e.2) → Tidy (applied ns es st).conf := by
  induction es with
  | nil => exact fun st h _ => h
  | cons e es ih =>
    intro st h hes
    exact ih _ (tidy_updateState h e.1 (hes e (by simp)))
      fun e' he' => hes e' (List.mem_cons_of_mem _ he')

/-- And the lines of a file, whatever it holds. -/
theorem tidy_parsedState {ns : Nat} {key text : Text} {conf : RadclockConfig} {mask : UInt32}
    (h : Tidy conf) : Tidy (parsedState ns key text conf mask).conf :=
  tidy_applied _ _ h (clean_entries _ key (isLine_readLines (MAXLINE - 1) text [] (by simp)))

/-- So what is written over an outdated file is tidy. -/
theorem tidy_writtenConf {ns : Nat} {key text : Text} {conf : RadclockConfig} {mask : UInt32}
    (h : Tidy conf) : Tidy (writtenConf ns key text conf mask) := by
  intro k
  rw [writtenConf, (trimServers_frame ..).2.2.2.2.2.1]
  exact tidy_parsedState h k

/-- Whatever a parse reads into a tidy configuration, its texts are values of the file. -/
theorem tidy_configParse {packageVersion key text : Text} {isDaemon writable : Bool}
    {conf : RadclockConfig} {mask : UInt32} {ns : Nat} (h : Tidy conf) :
    Exec.Returns (configParse packageVersion key isDaemon ⟨some text, writable⟩ conf mask ns)
      fun p => Tidy p.conf := by
  intro p hp
  obtain ⟨_, _, _, hconf⟩ := configParse_res hp
  intro k
  have htext := finished_text packageVersion isDaemon writable ns
    (entries key (readLines (MAXLINE - 1) [] text)).1 ⟨conf, mask, 0, false⟩ k
  -- a daemon drops the names of the input files, the others are as they were read
  rw [hconf, show parsedState ns key text conf mask = applied ns
    (entries key (readLines (MAXLINE - 1) [] text)).1 ⟨conf, mask, 0, false⟩ from rfl, htext]
  split_ifs
  · exact .inl rfl
  · exact tidy_parsedState h k

/-! ## Only settings that fit are read back -/

/-- The first of the lines that fail. -/
theorem exists_first {P : Item → Prop} (items : List Item) (h : ¬ ∀ i ∈ items, P i) :
    ∃ pre i post, items = pre ++ i :: post ∧ (∀ j ∈ pre, P j) ∧ ¬ P i := by
  induction items with
  | nil => exact absurd (by simp) h
  | cons i items ih =>
    by_cases hi : P i
    · obtain ⟨pre, j, post, rfl, hpre, hj⟩ := ih fun hall => h (by simpa using ⟨hi, hall⟩)
      exact ⟨i :: pre, j, post, rfl, by simpa using ⟨hi, hpre⟩, hj⟩
    · exact ⟨[], i, items, rfl, by simp, hi⟩

/-- A clean value that does not fit is not the end of its line, for that is short. -/
theorem plain_of_not_lineFits {k : Key} (hk : k ≠ .unknown) {v : Text} (hv : Clean v)
    (h : ¬ LineFits k v) : Plain v := by
  rcases hv with rfl | hv
  · have hmax : MAXLINE = 250 := rfl
    have hlabel := (isLabel_findKeyLabel hk).2
    exact absurd ⟨.inl rfl, by simp only [List.length_singleton]; omega⟩ h
  · exact hv

section
variable {packageVersion key : Text} {c : RadclockConfig} {ns : Nat}

/-- The entries of a file, up to the first setting that does not fit. -/
theorem entries_first {items pre post : List Item} {e : Key × Text}
    (hitems : items = pre ++ .setting (findKeyLabel e.1) e.2 :: post) (hpre : ∀ j ∈ pre, j.Fits)
    (hk : e.1 ≠ .unknown) (hv : Plain e.2) (hfits : ¬ LineFits e.1 e.2) (key : Text) :
    ∃ key' v' r, v' ≠ [] ∧ v' ≠ e.2 ∧ r ≠ [] ∧ r <:+ e.2 ∧
      entries key (linesOf (items.flatMap Item.render)) =
        (pre.filterMap Item.entry ++ (e.1, v') ::
          (entries key' (linesOf (r ++ '\n' :: post.flatMap Item.render))).1,
         (entries key' (linesOf (r ++ '\n' :: post.flatMap Item.render))).2) := by
  obtain ⟨hlabel, hshort⟩ := isLabel_findKeyLabel hk
  obtain ⟨key₁, h₁⟩ := entries_items pre key
    ((Item.setting (findKeyLabel e.1) e.2).render ++ post.flatMap Item.render) hpre
  obtain ⟨key₂, v', r, hne, hne', hr, hsuf, h₂⟩ := entries_cut hlabel (by omega) hv
    (fun hlen => hfits ⟨.inr hv, hlen⟩) key₁ (post.flatMap Item.render)
  refine ⟨key₂, v', r, hne, hne', hr, hsuf, ?_⟩
  rw [hitems, List.flatMap_append, List.flatMap_cons, h₁, h₂, matchKey_findKeyLabel hk]

/-- A file that was written with a setting that does not fit, and can be read, gives a text or the
servers another value than the one that was written. -/
theorem cut_of_not_fits (hver : Plain packageVersion) (hshort : packageVersion.length ≤ 226)
    {items : List Item} (hitems : configItems packageVersion (some c) ns = some items)
    (hok : (entries key (linesOf (items.flatMap Item.render))).2 = true) (htidy : Tidy c)
    (hservers : ∀ name ∈ serverNames c ns, Clean name) (hnot : ¬ ∀ i ∈ items, i.Fits) :
    (∃ k v vs, v ≠ [] ∧ v ≠ c.text k ∧
      valuesOf (.text k) (entries key (linesOf (items.flatMap Item.render))).1 = v :: vs) ∨
    valuesOf .timeServer (entries key (linesOf (items.flatMap Item.render))).1 ≠
      serverNames c ns := by
  have hsays := says_configItems hitems
  obtain ⟨pre, i, post, heq, hpre, hi⟩ := exists_first items hnot
  -- comments fit, so it is a setting
  obtain ⟨e, he, hk, rfl⟩ : ∃ e ∈ settings packageVersion c ns, e.1 ≠ .unknown ∧
      i = .setting (findKeyLabel e.1) e.2 := by
    rcases hsays.fits i (by rw [heq]; simp) with ⟨_, h⟩ | h
    · exact absurd h hi
    · exact h
  have hunfit : ¬ LineFits e.1 e.2 := fun h => hi (h.item hk)
  -- The settings, with the first one that does not fit in their middle.
  have hsplit : settings packageVersion c ns =
      pre.filterMap Item.entry ++ e :: post.filterMap Item.entry := by
    rw [← hsays.entries, heq, List.filterMap_append, List.filterMap_cons, Item.entry,
      matchKey_findKeyLabel hk]
  have hvalues : ∀ key, key.bit ≠ some .tempQuality → writtenValues packageVersion c ns key =
      valuesOf key (pre.filterMap Item.entry) ++
        valuesOf key (e :: post.filterMap Item.entry) := by
    intro key hkey
    rw [← valuesOf_settings key hkey, hsplit, valuesOf_append]
  rcases settings_cases hver hshort (isSome_label_of_configItems hitems) he with hfits | hnum |
    ⟨k, hne, rfl⟩ | ⟨hserver, name, hname, rfl⟩
  · exact absurd hfits hunfit
  · -- What is left of a number cannot be read.
    obtain ⟨hnumeral, hne⟩ := hnum.numeral
    obtain ⟨key', v', r, _, _, hr, hsuf, hentries⟩ := entries_first heq hpre hk
      (plain_of_isNumeral hnumeral hne) hunfit key
    have hfault := entries_numeral (fun d hd => hnumeral d (hsuf.mem hd)) hr key'
      (post.flatMap Item.render)
    rw [hentries, hfault] at hok
    cases hok
  · -- The first value of the text is the piece that fits.
    have hplain := plain_of_not_lineFits hk ((htidy k).resolve_left hne) hunfit
    obtain ⟨key', v', r, hv', hv, _, _, hentries⟩ := entries_first heq hpre hk hplain hunfit key
    have hnone : valuesOf (.text k) (pre.filterMap Item.entry) = [] := by
      have h := hvalues (.text k) (by simp [Key.bit])
      rw [writtenValues, if_neg hne, valuesOf_cons, if_pos rfl] at h
      have hlen := congrArg List.length h
      simp only [List.length_nil, List.length_append, List.length_cons] at hlen
      exact List.eq_nil_of_length_eq_zero (by omega)
    have hread : valuesOf (.text k) (entries key (linesOf (items.flatMap Item.render))).1 =
        v' :: valuesOf (.text k)
          (entries key' (linesOf (r ++ '\n' :: post.flatMap Item.render))).1 := by
      rw [hentries, valuesOf_append, hnone, valuesOf_cons, if_pos rfl, List.nil_append]
    exact .inl ⟨k, v', _, hv', hv, hread⟩
  · -- The name that is read stands where the one that was written stood.
    have hplain := plain_of_not_lineFits hk (hservers name hname) hunfit
    obtain ⟨key', v', r, _, hv, _, _, hentries⟩ := entries_first heq hpre hk hplain hunfit key
    have hwritten := hvalues .timeServer (by simp [Key.bit])
    rw [writtenValues, if_neg hserver, valuesOf_cons, if_pos rfl] at hwritten
    refine .inr fun hread => ?_
    rw [hentries, valuesOf_append, valuesOf_cons, if_pos rfl] at hread
    have hboth := hwritten.symm.trans hread.symm
    exact hv (List.cons.inj (List.append_cancel_left hboth)).1.symm

/-- If a file that was written is read as the same configuration, all its settings fit. -/
theorem fits_of_sameConf (hver : Plain packageVersion) (hshort : packageVersion.length ≤ 226)
    {items : List Item} (hitems : configItems packageVersion (some c) ns = some items)
    (beyond : Nat → Text) {p : Parsed} (hp : (configParse packageVersion key false
      ⟨some (items.flatMap Item.render), true⟩ (configInit packageVersion beyond)
        UPDMASK_NOUPD 0).res = some p)
    (hsame : SameConf { c with radclockVersion := packageVersion } ns p.conf p.ns) :
    ∀ i ∈ items, i.Fits := by
  obtain ⟨hok, _, hns, hconf⟩ := configParse_res hp
  -- What is read can be read: a text or a name that no file carries would come back changed.
  have htidy : Tidy c := fun k => by
    rw [← show p.conf.text k = c.text k from congrFun hsame.text k]
    exact tidy_configParse (tidy_configInit packageVersion beyond) p hp k
  have hread : serverNames c ns =
      valuesOf .timeServer (entries key (linesOf (items.flatMap Item.render))).1 := by
    rw [← show serverNames p.conf p.ns = serverNames c ns from hsame.servers, hns, hconf,
      serverNames, (finished_frame ..).2.2.2.2]
    exact serverNames_applied 0 _ _ rfl (isSet_noupd _)
  have hservers : ∀ name ∈ serverNames c ns, Clean name := fun name hname => by
    rw [hread] at hname
    exact clean_entries _ key (isLine_readLines _ _ [] (by simp)) _ (mem_of_mem_valuesOf hname)
  by_contra hnot
  rcases cut_of_not_fits hver hshort hitems hok htidy hservers hnot with
    ⟨k, v, vs, hv, hne, hvalues⟩ | hne
  · -- The first value of a key is the one that stays.
    have htext : p.conf.text k = v := by
      have happ := applied_text k 0
        (entries key (linesOf (items.flatMap Item.render))).1
        ⟨configInit packageVersion beyond, UPDMASK_NOUPD, 0, false⟩
      rw [hvalues, List.foldl_cons, step_fresh, show textSlot.differs
          ((configInit packageVersion beyond).text k) v = true by
            simpa [textSlot, configInit] using Ne.symm hv, Slot.run_marked] at happ
      have hfin := finished_text packageVersion false true 0
        (entries key (linesOf (items.flatMap Item.render))).1
        ⟨configInit packageVersion beyond, UPDMASK_NOUPD, 0, false⟩ k
      rw [if_neg (fun h => Bool.noConfusion h.1), (Prod.mk.inj happ).2] at hfin
      rw [hconf]
      exact hfin
    exact hne (htext.symm.trans (congrFun hsame.text k))
  · exact hne hread.symm

/-- All lines of a configuration that survives fit, the comments by what they are. -/
theorem Survives.fits (hver : Plain packageVersion) (hshort : packageVersion.length ≤ 226)
    {items : List Item} (hitems : configItems packageVersion (some c) ns = some items)
    (h : Survives c ns) : ∀ i ∈ items, i.Fits := by
  refine (says_configItems hitems).fits_iff.mpr fun e he => ?_
  have hk : e.1 ≠ .unknown := by
    rintro hk
    rw [← (says_configItems hitems).entries, List.mem_filterMap] at he
    obtain ⟨i, hi, hentry⟩ := he
    rcases (says_configItems hitems).fits i hi with ⟨hnone, _⟩ | ⟨e', _, hk', rfl⟩
    · rw [hnone] at hentry
      cases hentry
    · rw [Item.entry, matchKey_findKeyLabel hk'] at hentry
      cases hentry
      exact hk' hk
  exact (h.lineFits hver hshort (isSome_label_of_configItems hitems) he).item hk

/-- If all lines fit, the configuration survives as soon as its numbers do and it has a server. -/
theorem survives_of_fits {items : List Item}
    (hitems : configItems packageVersion (some c) ns = some items) (hfits : ∀ i ∈ items, i.Fits)
    (hserver : c.timeServer.block 0 ≠ [])
    (hscale : getTemperatureConfig c = none → ∀ k,
      SameNumber (strtod (printDouble 9 (c.scale k).1)) (c.scale k).1)
    (hphat : SameNumber (strtod (printGeneral c.phatInit.1)) c.phatInit.1)
    (hasym : ∀ k, SameNumber (strtod (printDouble 6 (c.asym k).1)) (c.asym k).1) :
    Survives c ns := by
  have hline : ∀ e ∈ settings packageVersion c ns, LineFits e.1 e.2 := fun e he =>
    ((says_configItems hitems).fits_iff.mp hfits e he).2
  exact
    { text := fun k hne => hline _ (text_mem hne)
      server := hserver
      servers := fun name hname => hline _ (server_mem hserver hname)
      scale := fun hnone k => ⟨hline _ (IsNumber.mem (.scale hnone k)), hscale hnone k⟩
      phatInit := ⟨hline _ (IsNumber.mem .phatInit), hphat⟩
      asym := fun k => ⟨hline _ (IsNumber.mem (.asym k)), hasym k⟩ }

/-- The file that is written over an outdated one means what the old one meant: read from a fresh
configuration, whatever the key buffer and the memory behind the server names hold, it gives
every field the value that the parse of the old file gave it, for a daemon and for the program
in the foreground. -/
def KeepsMeaning (packageVersion key text : Text) (conf : RadclockConfig) (mask : UInt32)
    (ns : Nat) : Prop :=
  ∀ isDaemon, Exec.Returns
    (configParse packageVersion key isDaemon ⟨some text, true⟩ conf mask ns) fun p =>
      ∀ key' beyond, ∃ p', (configParse packageVersion key' isDaemon ⟨p.file, true⟩
          (configInit packageVersion beyond) UPDMASK_NOUPD 0).res = some p' ∧
        SameConf p.conf p.ns p'.conf p'.ns

end

section
variable {packageVersion key text : Text} {conf : RadclockConfig} {mask : UInt32} {ns : Nat}

/-- A configuration that survives is read as it was, from whatever it was obtained. -/
theorem keepsMeaning_of_survives (hver : Plain packageVersion)
    (hshort : packageVersion.length ≤ 226)
    (hold : (writtenConf ns key text conf mask).radclockVersion ≠ packageVersion)
    (h : Survives (writtenConf ns key text conf mask) (parsedState ns key text conf mask).nf) :
    KeepsMeaning packageVersion key text conf mask ns := by
  intro isDaemon p hp key' beyond
  obtain ⟨items, hitems, rfl⟩ := configParse_outdated hold hp
  have hfits := h.fits hver hshort hitems
  obtain ⟨st, mask', file, hreread, hparse⟩ :=
    configParse_written hitems hfits key' isDaemon beyond
  have hsame := (sameConf_iff hreread).mpr
    ⟨h.server, fun hnone k => (h.scale hnone k).2, h.phatInit.2, fun k => (h.asym k).2⟩
  exact ⟨_, hparse, hsame.live isDaemon⟩

/-- And no other configuration is. -/
theorem survives_of_keepsMeaning (hver : Plain packageVersion)
    (hshort : packageVersion.length ≤ 226)
    (hold : (writtenConf ns key text conf mask).radclockVersion ≠ packageVersion)
    (hread : (configParse packageVersion key false ⟨some text, true⟩ conf mask ns).res.isSome)
    (h : KeepsMeaning packageVersion key text conf mask ns) :
    Survives (writtenConf ns key text conf mask) (parsedState ns key text conf mask).nf := by
  obtain ⟨p, hp⟩ := Option.isSome_iff_exists.mp hread
  obtain ⟨items, hitems, rfl⟩ := configParse_outdated hold hp
  obtain ⟨p', hp', hsame⟩ := h false _ hp blankKey fun _ => []
  have hfits := fits_of_sameConf hver hshort hitems (fun _ => []) hp' hsame
  obtain ⟨st, mask', file, hreread, hparse⟩ :=
    configParse_written hitems hfits blankKey false fun _ => []
  rw [hparse] at hp'
  cases hp'
  obtain ⟨hserver, hscale, hphat, hasym⟩ := (sameConf_iff hreread).mp hsame
  exact survives_of_fits hitems hfits hserver hscale hphat hasym

end

/-- An upgrade keeps the meaning of a file if and only if the configuration that is written
survives: every line fits into the buffer of the parser, the numbers are those that their
decimals denote, and there is a server. -/
theorem upgrade_keeps_iff {packageVersion : Text} (hver : Plain packageVersion)
    (hshort : packageVersion.length ≤ 226) (key text : Text) (conf : RadclockConfig)
    (mask : UInt32) (ns : Nat)
    (hread : (configParse packageVersion key false ⟨some text, true⟩ conf mask ns).res.isSome)
    (hold : (writtenConf ns key text conf mask).radclockVersion ≠ packageVersion) :
    KeepsMeaning packageVersion key text conf mask ns ↔
      Survives (writtenConf ns key text conf mask) (parsedState ns key text conf mask).nf :=
  ⟨survives_of_keepsMeaning hver hshort hold hread, keepsMeaning_of_survives hver hshort hold⟩

/-- A file of version 0.9 with a name, a server and an asymmetry of a quarter of a second. -/
def oldFile : Text :=
  ("radclock_version = 0.9\nhostname = platypus\ntime_server = tock\nhost_asymmetry = 0.25\n" ++
    "init_period_estimate = 1e-9\n").toList

/-- What is written when the old file is read. -/
def oldFileConf : RadclockConfig :=
  writtenConf 0 blankKey oldFile (configInit "1.0".toList fun _ => []) UPDMASK_NOUPD

/-- The upgrade of such a file keeps it. -/
theorem upgrade_keeps_oldFile :
    (writtenConf 0 blankKey oldFile (configInit "1.0".toList fun _ => []) UPDMASK_NOUPD).text
      .hostname = "platypus".toList ∧
    KeepsMeaning "1.0".toList blankKey oldFile (configInit "1.0".toList fun _ => [])
      UPDMASK_NOUPD 0 := by
  -- one fact, so that the file is read once
  obtain ⟨hhost, hread, hold, htext, hserver, hservers, hquality, hphat, hasym⟩ :
      oldFileConf.text .hostname = "platypus".toList ∧
      (configParse "1.0".toList blankKey false ⟨some oldFile, true⟩
        (configInit "1.0".toList fun _ => []) UPDMASK_NOUPD 0).res.isSome ∧
      oldFileConf.radclockVersion ≠ "1.0".toList ∧
      (∀ k ∈ [TextKey.hostname, .networkdev, .syncInPcap, .syncInAscii, .syncOutPcap,
        .syncOutAscii, .clockOutAscii, .vmUdpList],
        oldFileConf.text k ≠ [] → LineFits (.text k) (oldFileConf.text k)) ∧
      oldFileConf.timeServer.block 0 ≠ [] ∧
      (∀ name ∈ serverNames oldFileConf (parsedState 0 blankKey oldFile
        (configInit "1.0".toList fun _ => []) UPDMASK_NOUPD).nf, LineFits .timeServer name) ∧
      getTemperatureConfig oldFileConf ≠ none ∧
      (LineFits .phatInit (printGeneral oldFileConf.phatInit.1) ∧
        SameNumber (strtod (printGeneral oldFileConf.phatInit.1)) oldFileConf.phatInit.1) ∧
      ∀ k ∈ [AsymKey.host, .net], LineFits (.asym k) (printDouble 6 (oldFileConf.asym k).1) ∧
        SameNumber (strtod (printDouble 6 (oldFileConf.asym k).1)) (oldFileConf.asym k).1 := by
    decide +kernel
  unfold oldFileConf at hhost hold htext hserver hservers hquality hphat hasym
  refine ⟨hhost, (upgrade_keeps_iff (by decide) (by decide) blankKey oldFile _ _ _ hread hold).2 ?_⟩
  exact
    { text := fun k => htext k (by cases k <;> decide)
      server := hserver
      servers := hservers
      scale := fun h => absurd h hquality
      phatInit := hphat
      asym := fun k => hasym k (by cases k <;> decide) }

/-- A host asymmetry of one and a half microseconds is written as `0.000002`. -/
theorem not_upgrade_keeps_asymmetry : ¬ KeepsMeaning "1.0".toList blankKey
    "radclock_version = 0.9\ntime_server = tock\nhost_asymmetry = 0.0000015\n".toList
    (configInit "1.0".toList fun _ => []) UPDMASK_NOUPD 0 := by
  intro h
  have hsurvives := survives_of_keepsMeaning (by decide) (by decide) (by decide +kernel)
    (by decide +kernel) h
  have hasym := (hsurvives.asym .host).2
  revert hasym
  decide +kernel

end RADclock.ConfigMgr
