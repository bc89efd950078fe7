import RADclock.Config.Lines
import RADclock.Config.Mask

/-!
# What the configuration file says

The keys and values of the file that `write_config_file` writes for a configuration, apart from
the comments around them.

- `settings`: the keys and values, in the order of the file.
- `Says`: a list of lines has these keys and values, and its other lines can be skipped.
- `says_configItems`: so it is for the lines of the file.
-/

namespace RADclock.ConfigMgr

open Lib

/-! ## Settings -/

def optionEntry (c : RadclockConfig) (k : OptionKey) : Key × Text :=
  (.option k, (k.labels[c.option k]?).getD [])

def textEntry (c : RadclockConfig) (k : TextKey) : List (Key × Text) :=
  if c.text k = [] then [] else [(.text k, c.text k)]

def scaleEntry (c : RadclockConfig) (k : ScaleKey) : Key × Text :=
  (.scale k, printDouble 9 (c.scale k).1)

def asymEntry (c : RadclockConfig) (k : AsymKey) : Key × Text :=
  (.asym k, printDouble 6 (c.asym k).1)

/-- The keyword, if there is one. -/
def qualityEntries (c : RadclockConfig) : List (Key × Text) :=
  match getTemperatureConfig c with
  | some q => [(.tempQuality, q.label)]
  | none => []

/-- The six numbers, if there is none. -/
def expertEntries (c : RadclockConfig) : List (Key × Text) :=
  match getTemperatureConfig c with
  | some _ => []
  | none =>
    [scaleEntry c .tslimit, scaleEntry c .skmScale, scaleEntry c .rateErrBound,
     scaleEntry c .bestSkmRate, (.offsetRatio, printInt c.offsetRatio.1.toInt),
     scaleEntry c .plocalQuality]

def serverEntries (c : RadclockConfig) (ns : Nat) : List (Key × Text) :=
  if c.timeServer.block 0 = [] then [(.timeServer, "tock.une.edu.au".toList)]
  else (serverNames c ns).map fun name => (.timeServer, name)

/-- The keys and values of the file that `write_config_file` writes. -/
def settings (packageVersion : Text) (c : RadclockConfig) (ns : Nat) : List (Key × Text) :=
  [(.radclockVersion, packageVersion), optionEntry c .verbose, optionEntry c .synchroType,
   (.pollPeriod, printInt c.pollPeriod.1.toInt)] ++
  textEntry c .hostname ++ serverEntries c ns ++
  [optionEntry c .serverIpc, optionEntry c .serverVmUdp] ++ textEntry c .vmUdpList ++
  [optionEntry c .serverXen, optionEntry c .serverVmware, optionEntry c .serverNtp,
   optionEntry c .adjustFFclock, optionEntry c .adjustFBclock] ++
  qualityEntries c ++ expertEntries c ++
  [(.phatInit, printGeneral c.phatInit.1), asymEntry c .host, asymEntry c .net] ++
  textEntry c .networkdev ++ textEntry c .syncInPcap ++ textEntry c .syncInAscii ++
  textEntry c .syncOutPcap ++ textEntry c .syncOutAscii ++ textEntry c .clockOutAscii

/-- Every key is found again by the label it is written with. -/
theorem matchKey_findKeyLabel {k : Key} (hk : k ≠ .unknown) : matchKey (findKeyLabel k) = k := by
  cases k with
  | unknown => exact absurd rfl hk
  | option k => cases k <;> decide
  | scale k => cases k <;> decide
  | asym k => cases k <;> decide
  | text k => cases k <;> decide
  | _ => decide

/-- The labels of the table have no blank or separator, and are short. -/
theorem isLabel_findKeyLabel {k : Key} (hk : k ≠ .unknown) :
    IsLabel (findKeyLabel k) ∧ (findKeyLabel k).length ≤ 20 := by
  -- one test of the characters for all the labels
  have hlabel : ∀ t : Text, t ≠ [] →
      (t.all fun c => !isBlank c && c != '=' && c != '#' && c != '\x00') = true → IsLabel t := by
    intro t hne hall
    refine ⟨fun c hc => ?_, hne⟩
    have := List.all_eq_true.mp hall c hc
    simpa [and_assoc] using this
  cases k with
  | unknown => exact absurd rfl hk
  | option k => cases k <;> exact ⟨hlabel _ (by decide) (by decide), by decide⟩
  | scale k => cases k <;> exact ⟨hlabel _ (by decide) (by decide), by decide⟩
  | asym k => cases k <;> exact ⟨hlabel _ (by decide) (by decide), by decide⟩
  | text k => cases k <;> exact ⟨hlabel _ (by decide) (by decide), by decide⟩
  | _ => exact ⟨hlabel _ (by decide) (by decide), by decide⟩

/-- Comments that fit. The two rules take a line as the list of its characters, which spares the
kernel the decoding of a string. -/
def FitAll (lines : List String) : Prop :=
  ∀ l ∈ lines, '\n' ∉ l.toList ∧ l.toList.length + 2 < MAXLINE

/-- No comment at all fits. -/
theorem FitAll.nil : FitAll [] := by simp [FitAll]

theorem FitAll.cons {t : Text} {lines : List String} (ht : '\n' ∉ t ∧ t.length + 2 < MAXLINE)
    (h : FitAll lines) : FitAll (String.ofList t :: lines) := by
  intro l hl
  rcases List.mem_cons.mp hl with rfl | hl
  · rw [String.toList_ofList]
    exact ht
  · exact h l hl

/-- The keys and values of some lines, all of whose other lines fit. -/
structure Says (items : List Item) (es : List (Key × Text)) : Prop where
  entries : items.filterMap Item.entry = es
  fits : ∀ i ∈ items, (i.entry = none ∧ i.Fits) ∨
    ∃ e ∈ es, e.1 ≠ .unknown ∧ i = .setting (findKeyLabel e.1) e.2

namespace Says

/-- Two parts of a file, one after the other. -/
theorem append {xs ys : List Item} {es fs : List (Key × Text)} (hx : Says xs es)
    (hy : Says ys fs) : Says (xs ++ ys) (es ++ fs) where
  entries := by rw [List.filterMap_append, hx.entries, hy.entries]
  fits i hi := by
    rcases List.mem_append.mp hi with hi | hi
    · rcases hx.fits i hi with h | ⟨e, he, h⟩
      · exact .inl h
      · exact .inr ⟨e, List.mem_append_left _ he, h⟩
    · rcases hy.fits i hi with h | ⟨e, he, h⟩
      · exact .inl h
      · exact .inr ⟨e, List.mem_append_right _ he, h⟩

/-- A part without lines. -/
theorem nil : Says [] [] := ⟨rfl, by simp⟩

/-- A blank line says nothing. -/
theorem blank {xs : List Item} {es : List (Key × Text)} (h : Says xs es) :
    Says (.blank :: xs) es where
  entries := h.entries
  fits i hi := by
    rcases List.mem_cons.mp hi with rfl | hi
    · exact .inl ⟨rfl, trivial⟩
    · exact h.fits i hi

/-- Nor does a comment that fits. -/
theorem comment {xs : List Item} {es : List (Key × Text)} {text : Text}
    (ht : '\n' ∉ text ∧ text.length + 2 < MAXLINE) (h : Says xs es) :
    Says (.comment text :: xs) es where
  entries := h.entries
  fits i hi := by
    rcases List.mem_cons.mp hi with rfl | hi
    · exact .inl ⟨rfl, ht⟩
    · exact h.fits i hi

/-- A setting says its key and its value, whether it fits or not. -/
theorem line {xs : List Item} {es : List (Key × Text)} {k : Key} (hk : k ≠ .unknown) (v : Text)
    (h : Says xs es) : Says (.setting (findKeyLabel k) v :: xs) ((k, v) :: es) where
  entries := by
    rw [List.filterMap_cons, Item.entry, matchKey_findKeyLabel hk, h.entries]
  fits i hi := by
    rcases List.mem_cons.mp hi with rfl | hi
    · exact .inr ⟨(k, v), by simp, hk, rfl⟩
    · rcases h.fits i hi with h | ⟨e, he, h⟩
      · exact .inl h
      · exact .inr ⟨e, List.mem_cons_of_mem _ he, h⟩

/-- A block of comments. -/
theorem comments {lines : List String} (h : FitAll lines) :
    Says (ConfigMgr.comments lines) [] := by
  induction lines with
  | nil => exact nil
  | cons l lines ih =>
    exact comment (h l (by simp)) (ih fun l' hl' => h l' (List.mem_cons_of_mem _ hl'))

/-- The title of a section is three comments between blank lines. -/
theorem title {name : Text} (h : '\n' ∉ name ∧ name.length + 2 < MAXLINE) :
    Says (ConfigMgr.title (String.ofList name)) [] := by
  refine .blank <| .blank <| .blank <| .comment (by decide) <| .comment ?_ <|
    .comment (by decide) <| .blank .nil
  rw [String.toList_ofList]
  exact h

/-- The same settings, written in another way. -/
theorem of_eq {xs : List Item} {es fs : List (Key × Text)} (h : Says xs es) (heq : es = fs) :
    Says xs fs := heq ▸ h

/-- A setting and the blank line after it. -/
theorem setting {k : Key} (hk : k ≠ .unknown) (v : Text) :
    Says (ConfigMgr.setting k v) [(k, v)] := .line hk v <| .blank .nil

/-- If the settings fit, so does every line, and conversely. -/
theorem fits_iff {items : List Item} {es : List (Key × Text)} (h : Says items es) :
    (∀ i ∈ items, i.Fits) ↔ ∀ e ∈ es, (Item.setting (findKeyLabel e.1) e.2).Fits := by
  constructor
  · intro hfits e he
    rw [← h.entries, List.mem_filterMap] at he
    obtain ⟨i, hi, hentry⟩ := he
    -- only a setting has an entry
    rcases h.fits i hi with ⟨hnone, _⟩ | ⟨e', _, hk, rfl⟩
    · rw [hnone] at hentry
      cases hentry
    · rw [Item.entry, matchKey_findKeyLabel hk] at hentry
      cases hentry
      exact hfits _ hi
  · intro hfits i hi
    rcases h.fits i hi with ⟨_, hi⟩ | ⟨e, he, _, rfl⟩
    · exact hi
    · exact hfits e he

end Says

/-- An option says its label, which the number must have. -/
theorem says_optionSetting {c : RadclockConfig} {k : OptionKey} {items : List Item}
    (h : optionSetting (some c) k = some items) : Says items [optionEntry c k] := by
  unfold optionSetting at h
  rw [Option.map_eq_some_iff] at h
  obtain ⟨label, hlabel, rfl⟩ := h
  have hentry : optionEntry c k = (.option k, label) := by
    rw [optionEntry, show k.labels[c.option k]? = some label from hlabel, Option.getD_some]
  rw [hentry]
  exact .setting (by simp) label

/-- A text is written if there is one; otherwise its default stands in a comment. -/
theorem says_textSetting (c : RadclockConfig) (k : TextKey) {default : Text}
    (h : '\n' ∉ findKeyLabel (.text k) ++ " = ".toList ++ default ∧
      (findKeyLabel (.text k) ++ " = ".toList ++ default).length + 2 < MAXLINE) :
    Says (textSetting (some c) k (String.ofList default)) (textEntry c k) := by
  change Says (if 0 < (c.text k).length then _ else _) (if c.text k = [] then _ else _)
  by_cases hc : c.text k = []
  · -- an empty text: the default, commented out
    rw [if_neg (by simp [hc]), if_pos hc, String.toList_ofList]
    exact .comment h <| .blank .nil
  · rw [if_pos (List.length_pos_iff.mpr hc), if_neg hc]
    exact .setting (by simp) _

/-- One line for each server, or the line of the default server. -/
theorem says_serverSettings (c : RadclockConfig) (ns : Nat) :
    Says (serverSettings (some c) ns) (serverEntries c ns) := by
  unfold serverSettings serverEntries
  by_cases hc : c.timeServer.block 0 = []
  · rw [if_pos hc]
    simp only [hc, List.length_nil, lt_irrefl, if_false]
    exact .setting (by simp) _
  · rw [if_neg hc]
    simp only [List.length_pos_iff.mpr hc, if_true, serverNames]
    -- the servers by their index, in the order of the loop
    induction List.range ns with
    | nil => exact .nil
    | cons s ss ih => exact .append (.setting (by simp) _) ih

/-- The keyword of the temperature environment, if one stands for the six numbers. -/
theorem says_qualitySetting (c : RadclockConfig) :
    Says (qualitySetting (some c)) (qualityEntries c) := by
  unfold qualitySetting qualityEntries
  cases hq : getTemperatureConfig c with
  | some q =>
    simp only [hq]
    exact .setting (by simp) q.label
  | none =>
    simp only [hq]
    exact .comment (by decide) <| .blank .nil

/-- The six numbers, if no keyword stands for them. -/
theorem says_expertSettings (c : RadclockConfig) :
    Says (expertSettings (some c)) (expertEntries c) := by
  unfold expertSettings expertEntries
  cases hq : getTemperatureConfig c with
  | some q =>
    simp only [Option.bind_some, hq, Option.isNone_some, Bool.false_eq_true, if_false]
    exact .comment (by decide +kernel) <| .comment (by decide +kernel) <|
      .comment (by decide +kernel) <| .comment (by decide +kernel) <|
      .comment (by decide +kernel) <| .comment (by decide +kernel) <| .blank .nil
  | none =>
    simp only [Option.bind_some, hq, Option.isNone_none, if_true]
    exact .line (by simp) _ <| .line (by simp) _ <| .line (by simp) _ <| .line (by simp) _ <|
      .line (by simp) _ <| .line (by simp) _ <| .blank .nil

/-- From the version to the servers. -/
theorem says_clientPart {packageVersion : Text} {c : RadclockConfig} {ns : Nat}
    {items : List Item} (h : clientPart packageVersion (some c) ns = some items) :
    Says items ([(.radclockVersion, packageVersion), optionEntry c .verbose,
      optionEntry c .synchroType, (.pollPeriod, printInt c.pollPeriod.1.toInt)] ++
      textEntry c .hostname ++ serverEntries c ns) := by
  unfold clientPart at h
  simp only [Option.bind_eq_bind, Option.bind_eq_some_iff, Option.pure_def, Option.some.injEq,
    Option.elim_some] at h
  obtain ⟨verbose, hverbose, synchroType, hsynchroType, rfl⟩ := h
  -- part by part: comments, titles and settings, each by its rule
  apply Says.of_eq
  case h =>
    repeat' apply Says.append
    all_goals first
      | exact Says.comments (by
          repeat' first | exact .nil | refine .cons (by decide) ?_)
      | exact Says.title (by decide)
      | exact says_optionSetting hverbose
      | exact says_optionSetting hsynchroType
      | exact says_serverSettings c ns
      | exact says_textSetting c _ (by decide)
      | exact Says.setting (by simp) _
      | exact Says.line (by simp) _ .nil
      | exact .blank .nil
      | exact .blank <| .blank .nil
  case heq => simp

/-- The clocks that are served, and the list of virtual machines. -/
theorem says_serverPart {c : RadclockConfig} {items : List Item}
    (h : serverPart (some c) = some items) :
    Says items ([optionEntry c .serverIpc, optionEntry c .serverVmUdp] ++ textEntry c .vmUdpList ++
      [optionEntry c .serverXen, optionEntry c .serverVmware, optionEntry c .serverNtp,
       optionEntry c .adjustFFclock, optionEntry c .adjustFBclock]) := by
  unfold serverPart at h
  simp only [Option.bind_eq_bind, Option.bind_eq_some_iff, Option.pure_def, Option.some.injEq] at h
  obtain ⟨ipc, hipc, vmUdp, hvmUdp, xen, hxen, vmware, hvmware, ntp, hntp, ff, hff, fb, hfb,
    rfl⟩ := h
  apply Says.of_eq
  case h =>
    repeat' apply Says.append
    all_goals first
      | exact Says.comments (by
          repeat' first | exact .nil | refine .cons (by decide) ?_)
      | exact Says.title (by decide)
      | exact says_optionSetting hipc
      | exact says_optionSetting hvmUdp
      | exact says_optionSetting hxen
      | exact says_optionSetting hvmware
      | exact says_optionSetting hntp
      | exact says_optionSetting hff
      | exact says_optionSetting hfb
      | exact says_textSetting c _ (by decide)
  case heq => simp

/-- The parameters of the algorithm and the devices. -/
theorem says_tuningPart (c : RadclockConfig) :
    Says (tuningPart (some c)) (qualityEntries c ++ expertEntries c ++
      [(.phatInit, printGeneral c.phatInit.1), asymEntry c .host, asymEntry c .net] ++
      textEntry c .networkdev ++ textEntry c .syncInPcap ++ textEntry c .syncInAscii ++
      textEntry c .syncOutPcap ++ textEntry c .syncOutAscii ++ textEntry c .clockOutAscii) := by
  unfold tuningPart
  simp only [Option.elim_some]
  apply Says.of_eq
  case h =>
    repeat' apply Says.append
    all_goals first
      | exact Says.comments (by
          repeat' first | exact .nil | refine .cons (by decide) ?_)
      | exact Says.title (by decide)
      | exact says_qualitySetting c
      | exact says_expertSettings c
      | exact Says.setting (by simp) _
      | exact says_textSetting c _ (by decide)
  case heq => simp [asymEntry]

/-- The file has the settings of the configuration, and comments that fit. -/
theorem says_configItems {packageVersion : Text} {c : RadclockConfig} {ns : Nat}
    {items : List Item} (h : configItems packageVersion (some c) ns = some items) :
    Says items (settings packageVersion c ns) := by
  unfold configItems at h
  simp only [Option.bind_eq_bind, Option.bind_eq_some_iff, Option.pure_def, Option.some.injEq] at h
  obtain ⟨client, hclient, server, hserver, rfl⟩ := h
  apply Says.of_eq
  case h =>
    exact ((says_clientPart hclient).append (says_serverPart hserver)).append (says_tuningPart c)
  case heq => simp [settings]

end RADclock.ConfigMgr
