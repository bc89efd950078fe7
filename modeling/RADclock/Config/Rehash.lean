import RADclock.Config.Upgrade

/-!
# Reading an unchanged file again

`rehash_daemon` reads the configuration file with an empty mask, and acts on the bits that the
parse sets. If the file is what it was, nothing should happen: every field keeps its value, and
no bit is set.

The comparison comes before the value is replaced by a default, so a value out of range is a
change each time it is read. And only the first line that differs counts: when a key is there
twice with two values, the second line is the one that differs at the next parse.

- `NoOp`: a parse has changed nothing.
- `InForce`: every line of a file gives the value that the configuration has, and
  `configParse_noOp_iff`: this is when a parse changes nothing.
- `Quiet`: no line of the second file gives another value than the one that the lines of the
  first have settled.
- `rehash_noOp_iff`: this is exactly when a second parse changes nothing.
- `Settles`: the values of a configuration are those that a file which records them gives back,
  and `rehash_outdated_iff`: when the parse after one that has brought the file up to date
  changes nothing.
-/

namespace RADclock.ConfigMgr

open Lib

/-! ## One parse -/

/-- The parse has changed nothing, and says so. -/
structure NoOp (conf : RadclockConfig) (ns : Nat) (p : Parsed) : Prop where
  mask : p.mask = UPDMASK_NOUPD
  same : SameConf conf ns p.conf p.ns
  nservers : p.ns = ns

/-- Every line of the file gives the value that the configuration has, and the end of the parse
leaves the version and the input files as they are. -/
structure InForce (packageVersion : Text) (isDaemon writable : Bool) (conf : RadclockConfig)
    (ns : Nat) (es : List (Key × Text)) : Prop where
  version : conf.radclockVersion = if writable then packageVersion else versionOf conf es
  option : ∀ k, ∀ v ∈ valuesOf (.option k) es, (optionSlot k).differs (conf.option k) v = false
  pollPeriod : ∀ v ∈ valuesOf .pollPeriod es, pollPeriodSlot.differs conf.pollPeriod v = false
  temp : ¬ Announced conf.temp (tempLines false es) ∧
    ∀ q ∈ lastQuality (tempLines false es), conf.temp.Same q.temp
  phatInit : ∀ v ∈ (valuesOf .phatInit es).getLast?, SameNumber (phatInitRead v).1 conf.phatInit.1
  asym : ∀ k, ∀ v ∈ valuesOf (.asym k) es, asymSlot.differs (conf.asym k) v = false
  text : ∀ k, ∀ v ∈ valuesOf (.text k) es, textSlot.differs (conf.text k) v = false
  dropped : ∀ k, Drops packageVersion isDaemon writable conf es k → conf.text k = []
  servers : valuesOf .timeServer es = serverNames conf ns

/-- A slot is unmarked and has the same value exactly when no line differs. -/
theorem Slot.unmarked_iff {α : Type} {s : Slot α} (hs : s.Lawful) (old : α) (vs : List Text) :
    (vs.foldl s.step (false, old)).1 = false ∧ s.same old (vs.foldl s.step (false, old)).2 ↔
      ∀ v ∈ vs, s.differs old v = false := by
  constructor
  · rintro ⟨hbit, _⟩ v hv
    by_contra hdiffers
    have hmarked := (marked_iff hs old vs).mpr ⟨v, hv, Bool.not_eq_false _ ▸ hdiffers⟩
    rw [hbit] at hmarked
    cases hmarked
  · intro hnone
    exact run_none hs vs old rfl (hs.refl old)
      (List.find?_eq_none.mpr fun v hv => by rw [hnone v hv]; exact Bool.false_ne_true)

/-- A line sets at most one bit, and clears none. -/
theorem updateState_mask (ns : Nat) (st : ParseState) (k : Key) (v : Text) :
    ∃ b differs, (updateState ns st k v).mask = mark st.mask b differs := by
  have hguarded : ∀ b differs conf, ∃ b' differs',
      (guarded b differs conf st).mask = mark st.mask b' differs' := by
    intro b differs conf
    unfold guarded
    split
    · exact ⟨b, false, rfl⟩
    · exact ⟨b, differs, rfl⟩
  -- every key marks at most one bit
  cases k with
  | option k => exact hguarded _ _ _
  | pollPeriod => exact hguarded _ _ _
  | asym k => exact hguarded _ _ _
  | text k => exact hguarded _ _ _
  | scale k =>
    simp only [updateState, updateField, scaleCase]
    split
    · exact ⟨.tempQuality, false, rfl⟩
    · exact ⟨.tempQuality, _, rfl⟩
  | offsetRatio =>
    simp only [updateState, updateField, offsetRatioCase]
    split
    · exact ⟨.tempQuality, false, rfl⟩
    · exact ⟨.tempQuality, _, rfl⟩
  | tempQuality =>
    simp only [updateState, updateField, tempQualityCase]
    cases findQuality v with
    | none => exact ⟨.tempQuality, false, rfl⟩
    | some q => exact ⟨.tempQuality, _, rfl⟩
  | timeServer =>
    simp only [updateState, serverState]
    split
    · exact ⟨.timeServer, false, rfl⟩
    · exact ⟨.timeServer, _, rfl⟩
  | _ => exact ⟨.timeServer, false, rfl⟩

theorem isSet_applied_of_isSet {b : Bit} (ns : Nat) (es : List (Key × Text)) :
    ∀ st, isSet st.mask b = true → isSet (applied ns es st).mask b = true := by
  induction es with
  | nil => exact fun st h => h
  | cons e es ih =>
    intro st h
    refine ih (updateState ns st e.1 e.2) ?_
    obtain ⟨b', differs, hmask⟩ := updateState_mask ns st e.1 e.2
    rw [hmask, isSet_mark, h, Bool.or_true]

/-- A mask without a bit at the end is the mask that the parse started with. -/
theorem mask_applied {ns : Nat} (es : List (Key × Text)) :
    ∀ st, (∀ b, isSet (applied ns es st).mask b = false) → (applied ns es st).mask = st.mask := by
  induction es with
  | nil => exact fun st _ => rfl
  | cons e es ih =>
    intro st hclear
    have htail := ih (updateState ns st e.1 e.2) hclear
    obtain ⟨b, differs, hmask⟩ := updateState_mask ns st e.1 e.2
    cases differs with
    | false => exact htail.trans hmask
    | true =>
      have hset := isSet_applied_of_isSet ns es (updateState ns st e.1 e.2)
        (show isSet (updateState ns st e.1 e.2).mask b = true by simp [hmask, isSet_mark])
      have hnot := hclear b
      rw [show applied ns (e :: es) st = applied ns es (updateState ns st e.1 e.2) from rfl,
        hset] at hnot
      cases hnot

theorem applied_phatInit (ns : Nat) (es : List (Key × Text)) (st : ParseState) :
    (applied ns es st).conf.phatInit =
      ((valuesOf .phatInit es).getLast?.map phatInitRead).getD st.conf.phatInit :=
  applied_last .phatInit (fun c => c.phatInit) phatInitRead (fun _ _ _ => rfl)
    (fun ns st k v hk => (updateState_unmarked ns st k v).2 hk) ns es st

section
variable (packageVersion : Text) (isDaemon writable : Bool)

theorem finished_phatInit (ns : Nat) (st : ParseState) :
    (finished packageVersion isDaemon writable ns st).phatInit = st.conf.phatInit := by
  have htrim : (trimServers ns st.nf st.conf).phatInit = st.conf.phatInit := by
    unfold trimServers
    split <;> rfl
  unfold finished
  simp only
  split_ifs
  · rw [liveInput_phatInit, htrim]
  · rw [liveInput_phatInit, htrim]
  · exact htrim

/-- A file that can be written ends with the version of the package. -/
theorem finished_version (ns : Nat) (es : List (Key × Text)) (st : ParseState) :
    (finished packageVersion isDaemon writable ns (applied ns es st)).radclockVersion =
      if writable then packageVersion else versionOf st.conf es := by
  have hver : (trimServers ns (applied ns es st).nf (applied ns es st).conf).radclockVersion =
      versionOf st.conf es := (trimServers_frame ..).1.trans (applied_version ns es st)
  unfold finished
  simp only [hver]
  split_ifs with h
  · rw [liveInput_radclockVersion, hver, h]
  · rw [liveInput_radclockVersion, hver]
  · rw [liveInput_radclockVersion]
  · exact hver

/-- What the lines of a file make of the fields that have a slot. -/
theorem slot_unchanged_iff {α : Type} {s : Slot α} (hs : s.Lawful) {b : Bit} {mask : UInt32}
    {old new : α} (vs : List Text)
    (happ : (isSet mask b, new) = vs.foldl s.step (isSet UPDMASK_NOUPD b, old)) :
    isSet mask b = false ∧ s.same old new ↔ ∀ v ∈ vs, s.differs old v = false := by
  rw [isSet_noupd] at happ
  rw [← Slot.unmarked_iff hs, ← happ]

variable {packageVersion isDaemon writable}

/-- A parse that keeps everything has found no line with another value. -/
theorem InForce.of_noOp {conf : RadclockConfig} {ns : Nat} {es : List (Key × Text)} {p : Parsed}
    (hmask : p.mask = (applied ns es ⟨conf, UPDMASK_NOUPD, 0, false⟩).mask)
    (hns : p.ns = (applied ns es ⟨conf, UPDMASK_NOUPD, 0, false⟩).nf)
    (hconf : p.conf = finished packageVersion isDaemon writable ns
      (applied ns es ⟨conf, UPDMASK_NOUPD, 0, false⟩))
    (h : NoOp conf ns p) : InForce packageVersion isDaemon writable conf ns es := by
  obtain ⟨hoption, hpoll, htemp, hasym, hblock⟩ := finished_frame packageVersion isDaemon writable
    ns (applied ns es ⟨conf, UPDMASK_NOUPD, 0, false⟩)
  have hclear : ∀ b, isSet (applied ns es ⟨conf, UPDMASK_NOUPD, 0, false⟩).mask b = false := by
    intro b
    rw [← hmask, h.mask, isSet_noupd]
  have hsame := h.same
  rw [hconf] at hsame
  -- a text that differed would have left its mark
  have htext : ∀ k, ∀ v ∈ valuesOf (.text k) es, textSlot.differs (conf.text k) v = false := by
    intro k v hv
    by_contra hdiffers
    have hmarked := (Slot.marked_iff textSlot_lawful (conf.text k) (valuesOf (.text k) es)).mpr
      ⟨v, hv, Bool.not_eq_false _ ▸ hdiffers⟩
    have happ := applied_text k ns es ⟨conf, UPDMASK_NOUPD, 0, false⟩
    simp only [isSet_noupd] at happ
    rw [← happ, hclear] at hmarked
    cases hmarked
  refine
    { version := ?_, option := fun k => ?_, pollPeriod := ?_, temp := ?_, phatInit := ?_,
      asym := fun k => ?_, text := htext, dropped := fun k hdrop => ?_, servers := ?_ }
  · rw [← hsame.version]
    exact finished_version packageVersion isDaemon writable ns es _
  · exact (slot_unchanged_iff (optionSlot_lawful k) _ (applied_option k ns es _)).mp
      ⟨hclear _, by rw [← congrFun hsame.option k, hoption]; rfl⟩
  · exact (slot_unchanged_iff pollPeriodSlot_lawful _ (applied_pollPeriod ns es _)).mp
      ⟨hclear _, by rw [← hsame.pollPeriod, hpoll]; rfl⟩
  · -- the metaparameters: no line announced one, and all are as before
    obtain ⟨hset, hafter⟩ := applied_temp ns es ⟨conf, UPDMASK_NOUPD, 0, false⟩
    have hnot : ¬ Announced conf.temp (tempLines false es) := by
      intro hann
      have hmarked := hset.mpr (.inr hann)
      rw [hclear] at hmarked
      cases hmarked
    have hkept := hsame.temp
    rw [htemp, hafter] at hkept
    refine ⟨hnot, ?_⟩
    have htells : TempTells conf.temp (tempLines false es) :=
      (tempTells_iff _ _).mp (iff_of_false hnot fun hne => hne hkept.symm)
    exact htells.2 hnot
  · have hkept := hsame.phatInit
    rw [finished_phatInit, applied_phatInit] at hkept
    intro v hv
    rw [Option.mem_def.mp hv] at hkept
    exact hkept
  · refine (slot_unchanged_iff asymSlot_lawful _ (applied_asym k ns es _)).mp ⟨hclear _, ?_⟩
    have hkept := hsame.asym k
    rw [hasym] at hkept
    exact hkept.symm
  · have hkept := congrFun hsame.text k
    rw [finished_text, if_pos hdrop] at hkept
    exact hkept.symm
  · have hkept := hsame.servers
    rw [hns] at hkept
    rw [← serverNames_applied ns es ⟨conf, UPDMASK_NOUPD, 0, false⟩ rfl (isSet_noupd _), ← hkept,
      serverNames, serverNames, hblock]

/-- A parse of lines that all give the values in force keeps everything. -/
theorem InForce.noOp {conf : RadclockConfig} {ns : Nat} {es : List (Key × Text)} {p : Parsed}
    (hmask : p.mask = (applied ns es ⟨conf, UPDMASK_NOUPD, 0, false⟩).mask)
    (hns : p.ns = (applied ns es ⟨conf, UPDMASK_NOUPD, 0, false⟩).nf)
    (hconf : p.conf = finished packageVersion isDaemon writable ns
      (applied ns es ⟨conf, UPDMASK_NOUPD, 0, false⟩))
    (h : InForce packageVersion isDaemon writable conf ns es) : NoOp conf ns p := by
  obtain ⟨hoption, hpoll, htemp, hasym, hblock⟩ := finished_frame packageVersion isDaemon writable
    ns (applied ns es ⟨conf, UPDMASK_NOUPD, 0, false⟩)
  have hoption' := fun k => (slot_unchanged_iff (optionSlot_lawful k) _
    (applied_option k ns es ⟨conf, UPDMASK_NOUPD, 0, false⟩)).mpr (h.option k)
  have hpoll' := (slot_unchanged_iff pollPeriodSlot_lawful _
    (applied_pollPeriod ns es ⟨conf, UPDMASK_NOUPD, 0, false⟩)).mpr h.pollPeriod
  have hasym' := fun k => (slot_unchanged_iff asymSlot_lawful _
    (applied_asym k ns es ⟨conf, UPDMASK_NOUPD, 0, false⟩)).mpr (h.asym k)
  have htext' := fun k => (slot_unchanged_iff textSlot_lawful _
    (applied_text k ns es ⟨conf, UPDMASK_NOUPD, 0, false⟩)).mpr (h.text k)
  obtain ⟨hset, hafter⟩ := applied_temp ns es ⟨conf, UPDMASK_NOUPD, 0, false⟩
  obtain ⟨hlen, _, hserver⟩ := applied_servers ns es ⟨conf, UPDMASK_NOUPD, 0, false⟩
    fun _ => isSet_noupd .timeServer
  have hnames := serverNames_applied ns es ⟨conf, UPDMASK_NOUPD, 0, false⟩ rfl (isSet_noupd _)
  have hcount : (valuesOf .timeServer es).length = ns := by
    rw [h.servers, serverNames, List.length_map, List.length_range]
  have hnf : (applied ns es ⟨conf, UPDMASK_NOUPD, 0, false⟩).nf = ns := by
    rw [hlen, hcount]
    exact Nat.zero_add ns
  -- no bit is marked
  have hclear : ∀ b, isSet (applied ns es ⟨conf, UPDMASK_NOUPD, 0, false⟩).mask b = false := by
    intro b
    cases b with
    | option k => exact (hoption' k).1
    | pollPeriod => exact hpoll'.1
    | asym k => exact (hasym' k).1
    | text k => exact (htext' k).1
    | tempQuality =>
      rw [← Bool.not_eq_true, hset]
      rintro (hset | hann)
      · rw [isSet_noupd] at hset
        cases hset
      · exact h.temp.1 hann
    | timeServer =>
      rw [← Bool.not_eq_true, hserver]
      rintro (hset | ⟨i, v, hv, hnew⟩)
      · rw [isSet_noupd] at hset
        cases hset
      · rw [h.servers] at hv
        obtain ⟨hi, hget⟩ := List.getElem?_eq_some_iff.mp hv
        simp only [serverNames, List.length_map, List.length_range, List.getElem_map,
          List.getElem_range, Nat.zero_add] at hi hget hnew
        rcases hnew with ⟨_, hnew⟩ | hnew
        · omega
        · exact hnew hget
  refine ⟨hmask.trans (mask_applied es _ hclear), ?_, hns.trans hnf⟩
  rw [hns, hconf]
  refine
    { version := ?_, option := ?_, pollPeriod := ?_, temp := ?_, phatInit := ?_,
      asym := fun k => ?_, text := ?_, servers := ?_ }
  · exact (finished_version packageVersion isDaemon writable ns es _).trans h.version.symm
  · -- and each value ends as it was
    rw [hoption]
    exact funext fun k => (hoption' k).2.symm
  · rw [hpoll]
    exact Subtype.ext hpoll'.2.symm
  · rw [htemp, hafter]
    have hkept := (tempTells_iff conf.temp (tempLines false es)).mpr
      ⟨fun hann => absurd hann h.temp.1, fun _ => h.temp.2⟩
    exact (not_not.mp fun hne => h.temp.1 (hkept.mpr hne)).symm
  · rw [finished_phatInit, applied_phatInit]
    cases hlast : (valuesOf .phatInit es).getLast? with
    | none => exact .refl _
    | some v => exact h.phatInit v hlast
  · rw [hasym]
    exact (hasym' k).2.symm
  · funext k
    rw [finished_text]
    split_ifs with hdrop
    · exact (h.dropped k hdrop).symm
    · exact (htext' k).2.symm
  · rw [serverNames, hblock]
    exact hnames.trans h.servers

/-- A parse changes nothing exactly when every line gives the value in force. -/
theorem configParse_noOp_iff {key text : Text} {conf : RadclockConfig} {ns : Nat} :
    Exec.Returns
      (configParse packageVersion key isDaemon ⟨some text, writable⟩ conf UPDMASK_NOUPD ns)
      fun p => NoOp conf ns p ↔ InForce packageVersion isDaemon writable conf ns
        (entries key (linesOf text)).1 := by
  intro p hp
  obtain ⟨_, hmask, hns, hconf⟩ := configParse_res hp
  exact ⟨InForce.of_noOp hmask hns hconf, InForce.noOp hmask hns hconf⟩

end

/-! ## The parse after a parse -/

/-- The value that the lines of a file leave in a slot, as far as any line can tell: the first
line that differs decides. -/
def Slot.settled {α : Type} (s : Slot α) (old : α) (vs : List Text) : α :=
  (vs.find? (s.differs old)).elim old s.new

theorem Slot.run_differs {α : Type} {s : Slot α} (hs : s.Lawful) {old : α} (vs : List Text) :
    ∀ a, s.differs a = s.differs old →
      s.differs (vs.foldl s.step (false, a)).2 = s.differs (s.settled old vs) := by
  induction vs with
  | nil => exact fun a ha => ha
  | cons v vs ih =>
    intro a ha
    unfold settled at ih ⊢
    rw [List.foldl_cons, List.find?_cons]
    cases hv : s.differs old v with
    | true =>
      have hstep : s.step (false, a) v = (true, s.new v) := by simp [step, ha, hv]
      rw [hstep, run_marked]
      rfl
    | false =>
      have hstep : s.step (false, a) v = (false, s.new v) := by simp [step, ha, hv]
      rw [hstep]
      exact ih (s.new v) (hs.same old v hv).1

section
variable (packageVersion : Text) (isDaemon writable : Bool)

/-- No line of the second file gives another value than the one that the lines of the first have
settled, from the configuration before both:

- a value with a bit of its own is settled by the first line that differs, and is the default if
  that is out of range or has no label;
- an input file of a daemon is settled to none;
- of the metaparameters and the initial period the last lines are in force. -/
structure Quiet (conf : RadclockConfig) (es es' : List (Key × Text)) : Prop where
  version : writable = false →
    ∀ v ∈ (valuesOf .radclockVersion es').getLast?, v = versionOf conf es
  option : ∀ k, ∀ v ∈ valuesOf (.option k) es', (optionSlot k).differs
    ((optionSlot k).settled (conf.option k) (valuesOf (.option k) es)) v = false
  pollPeriod : ∀ v ∈ valuesOf .pollPeriod es', pollPeriodSlot.differs
    (pollPeriodSlot.settled conf.pollPeriod (valuesOf .pollPeriod es)) v = false
  temp : ¬ Announced (conf.temp.after (tempLines false es)) (tempLines false es') ∧
    ∀ q ∈ lastQuality (tempLines false es'), (conf.temp.after (tempLines false es)).Same q.temp
  phatInit : ∀ v ∈ (valuesOf .phatInit es').getLast?, SameNumber (phatInitRead v).1
    (((valuesOf .phatInit es).getLast?.map phatInitRead).getD conf.phatInit).1
  asym : ∀ k, ∀ v ∈ valuesOf (.asym k) es', asymSlot.differs
    (asymSlot.settled (conf.asym k) (valuesOf (.asym k) es)) v = false
  dropped : ∀ k, Drops packageVersion isDaemon writable conf es k →
    ∀ v ∈ valuesOf (.text k) es', v = []
  text : ∀ k, ¬ Drops packageVersion isDaemon writable conf es k →
    ∀ v ∈ valuesOf (.text k) es', v = textSlot.settled (conf.text k) (valuesOf (.text k) es)
  servers : valuesOf .timeServer es' = valuesOf .timeServer es

variable {packageVersion isDaemon writable}

/-- After a parse, the lines of the second file give the values in force exactly when they are
quiet. -/
theorem inForce_iff (ns : Nat) (conf : RadclockConfig) (es es' : List (Key × Text)) :
    InForce packageVersion isDaemon writable
        (finished packageVersion isDaemon writable ns
          (applied ns es ⟨conf, UPDMASK_NOUPD, 0, false⟩))
        (applied ns es ⟨conf, UPDMASK_NOUPD, 0, false⟩).nf es' ↔
      Quiet packageVersion isDaemon writable conf es es' := by
  obtain ⟨hoption, hpoll, htemp, hasym, hblock⟩ := finished_frame packageVersion isDaemon writable
    ns (applied ns es ⟨conf, UPDMASK_NOUPD, 0, false⟩)
  have hver := finished_version packageVersion isDaemon writable ns es
    ⟨conf, UPDMASK_NOUPD, 0, false⟩
  have hphat := finished_phatInit packageVersion isDaemon writable ns
    (applied ns es ⟨conf, UPDMASK_NOUPD, 0, false⟩)
  have htext := finished_text packageVersion isDaemon writable ns es
    ⟨conf, UPDMASK_NOUPD, 0, false⟩
  have hnames := serverNames_applied ns es ⟨conf, UPDMASK_NOUPD, 0, false⟩ rfl (isSet_noupd _)
  have hsettled : ∀ {α : Type} {s : Slot α} (_ : s.Lawful) {b : Bit} {mask : UInt32} {old new : α}
      (vs : List Text) (_ : (isSet mask b, new) = vs.foldl s.step (isSet UPDMASK_NOUPD b, old)),
      s.differs new = s.differs (s.settled old vs) := by
    intro α s hs b mask old new vs happ
    rw [isSet_noupd] at happ
    rw [← Slot.run_differs hs vs old rfl, ← happ]
  have hoption' := fun k => hsettled (optionSlot_lawful k) _
    (applied_option k ns es ⟨conf, UPDMASK_NOUPD, 0, false⟩)
  have hpoll' := hsettled pollPeriodSlot_lawful _
    (applied_pollPeriod ns es ⟨conf, UPDMASK_NOUPD, 0, false⟩)
  have hasym' := fun k => hsettled asymSlot_lawful _
    (applied_asym k ns es ⟨conf, UPDMASK_NOUPD, 0, false⟩)
  have htext' := fun k => hsettled textSlot_lawful _
    (applied_text k ns es ⟨conf, UPDMASK_NOUPD, 0, false⟩)
  have hafter := (applied_temp ns es ⟨conf, UPDMASK_NOUPD, 0, false⟩).2
  have hphat' := applied_phatInit ns es ⟨conf, UPDMASK_NOUPD, 0, false⟩
  generalize hst : applied ns es ⟨conf, UPDMASK_NOUPD, 0, false⟩ = st at *
  generalize hconf : finished packageVersion isDaemon writable ns st = conf' at *
  dsimp only at hver htext hoption' hpoll' hasym' htext' hafter hphat'
  have hservers : serverNames conf' st.nf = valuesOf .timeServer es := by
    rw [serverNames, hblock]
    exact hnames
  have hdiffers : ∀ {a : Text} {v : Text}, textSlot.differs a v = false ↔ v = a := by
    intro a v
    rw [textSlot, decide_eq_false_iff_not, not_not, eq_comm]
  constructor
  · intro h
    refine
      { version := fun hnot v hv => ?_, option := fun k => ?_, pollPeriod := ?_, temp := ?_,
        phatInit := ?_, asym := fun k => ?_, dropped := fun k hdrop v hv => ?_,
        text := fun k hkept v hv => ?_, servers := h.servers.trans hservers }
    · have hread : versionOf conf' es' = v := by rw [versionOf, Option.mem_def.mp hv]; rfl
      have hkept := h.version
      rw [hver, hnot, if_neg Bool.false_ne_true, if_neg Bool.false_ne_true, hread] at hkept
      exact hkept.symm
    · rw [← hoption' k, ← hoption]
      exact h.option k
    · rw [← hpoll', ← hpoll]
      exact h.pollPeriod
    · rw [← hafter, ← htemp]
      exact h.temp
    · rw [← hphat', ← hphat]
      exact h.phatInit
    · rw [← hasym' k, ← hasym]
      exact h.asym k
    · have hforce := hdiffers.mp (h.text k v hv)
      rwa [htext, if_pos hdrop] at hforce
    · have hforce := h.text k v hv
      rw [htext, if_neg hkept, htext'] at hforce
      exact hdiffers.mp hforce
  · intro h
    refine
      { version := ?_, option := fun k => ?_, pollPeriod := ?_, temp := ?_, phatInit := ?_,
        asym := fun k => ?_, text := fun k v hv => ?_, dropped := fun k hdrop => ?_,
        servers := h.servers.trans hservers.symm }
    · rw [hver]
      split_ifs with hwrite
      · rfl
      · have hnot : writable = false := by simpa using hwrite
        rw [versionOf.eq_def conf', hver, if_neg hwrite]
        cases hlast : (valuesOf .radclockVersion es').getLast? with
        | none => rfl
        | some v => exact (h.version hnot v hlast).symm
    · rw [hoption, hoption' k]
      exact h.option k
    · rw [hpoll, hpoll']
      exact h.pollPeriod
    · rw [htemp, hafter]
      exact h.temp
    · rw [hphat, hphat']
      exact h.phatInit
    · rw [hasym, hasym' k]
      exact h.asym k
    · rw [htext]
      split_ifs with hdrop
      · exact hdiffers.mpr (h.dropped k hdrop v hv)
      · rw [htext']
        exact hdiffers.mpr (h.text k hdrop v hv)
    · -- The version that decides is the same at the end of both parses.
      rw [htext]
      split_ifs with hdrop'
      · rfl
      · obtain ⟨hdaemon, hkey, hwhich⟩ := hdrop
        cases hwrite : writable with
        | true => exact absurd ⟨hdaemon, hkey, .inr hwrite⟩ hdrop'
        | false =>
          have hlast : versionOf conf' es' = versionOf conf es := by
            rw [versionOf.eq_def conf', hver, if_neg (by simp [hwrite])]
            cases hlast : (valuesOf .radclockVersion es').getLast? with
            | none => rfl
            | some v => exact h.version hwrite v hlast
          rw [hlast] at hwhich
          exact absurd ⟨hdaemon, hkey, hwhich⟩ hdrop'

end

section
variable (packageVersion key key' : Text) (isDaemon : Bool)

/-- `config_parse`, and `config_parse` again on the file as the first parse leaves it, each time
with an empty mask. What the key buffer holds when the function is entered may differ. -/
def parseTwice (file : ConfFile) (conf : RadclockConfig) (ns : Nat) :
    Exec ServerWrite (Parsed × Parsed) := do
  let p ← configParse packageVersion key isDaemon file conf UPDMASK_NOUPD ns
  let p' ← configParse packageVersion key' isDaemon ⟨p.file, file.writable⟩ p.conf UPDMASK_NOUPD
    p.ns
  pure (p, p')

/-- The file that the second parse reads: the same one, unless the first has to bring it up to
date. -/
def fileAfter (writable : Bool) (text : Text) (conf : RadclockConfig) (ns : Nat) : Text :=
  if writable = true ∧ versionOf conf (entries key (linesOf text)).1 ≠ packageVersion then
    (writeConfigFile packageVersion (some (writtenConf ns key text conf UPDMASK_NOUPD))
      (parsedState ns key text conf UPDMASK_NOUPD).nf).getD []
  else text

end

theorem configParse_file {packageVersion key text : Text} {isDaemon writable : Bool}
    {conf : RadclockConfig} {ns : Nat} {p : Parsed}
    (h : (configParse packageVersion key isDaemon ⟨some text, writable⟩ conf UPDMASK_NOUPD ns).res
      = some p) :
    p.file = some (fileAfter packageVersion key writable text conf ns) := by
  have hver : (writtenConf ns key text conf UPDMASK_NOUPD).radclockVersion =
      versionOf conf (entries key (linesOf text)).1 :=
    (trimServers_frame ..).1.trans (applied_version ns _ _)
  unfold configParse at h
  simp only at h
  obtain ⟨st, hst, h⟩ := Exec.bind_res_some.mp h
  obtain ⟨_, rfl⟩ := parseLines_res hst
  change (ite ((writtenConf ns key text conf UPDMASK_NOUPD).radclockVersion = packageVersion) _ _ :
    Exec ServerWrite Parsed).res = some p at h
  rw [hver] at h
  unfold fileAfter
  -- only an outdated file that can be written changes
  split_ifs at h with hcurrent hwrite
  · rw [if_neg fun hold => hold.2 hcurrent]
    cases h
    rfl
  · rw [if_pos ⟨hwrite, hcurrent⟩]
    obtain ⟨t, ht, h⟩ := Exec.bind_res_some.mp h
    change (Exec.deref (writeConfigFile packageVersion
      (some (writtenConf ns key text conf UPDMASK_NOUPD))
      (parsedState ns key text conf UPDMASK_NOUPD).nf) : Exec ServerWrite Text).res = some t at ht
    cases hw : writeConfigFile packageVersion (some (writtenConf ns key text conf UPDMASK_NOUPD))
        (parsedState ns key text conf UPDMASK_NOUPD).nf with
    | none =>
      rw [hw] at ht
      cases ht
    | some t' =>
      rw [hw] at ht
      cases ht
      cases h
      rfl
  · rw [if_neg fun hold => hwrite hold.1]
    cases h
    rfl

/-- When both parses return, the second has changed nothing if and only if no line of the file
gives another value than the one that the first parse has settled. -/
theorem rehash_noOp_iff (packageVersion key key' : Text) (isDaemon writable : Bool) (text : Text)
    (conf : RadclockConfig) (ns : Nat) :
    Exec.Returns (parseTwice packageVersion key key' isDaemon ⟨some text, writable⟩ conf ns)
      fun pp => NoOp pp.1.conf pp.1.ns pp.2 ↔
        Quiet packageVersion isDaemon writable conf (entries key (linesOf text)).1
          (entries key' (linesOf (fileAfter packageVersion key writable text conf ns))).1 := by
  intro pp hpp
  obtain ⟨p, hp, hrest⟩ := Exec.bind_res_some.mp hpp
  obtain ⟨p', hp', hpair⟩ := Exec.bind_res_some.mp hrest
  cases hpair
  obtain ⟨_, _, hns, hconf⟩ := configParse_res hp
  rw [configParse_file hp] at hp'
  have hnoOp := configParse_noOp_iff p' hp'
  rw [hconf, hns] at hnoOp ⊢
  exact hnoOp.trans (inForce_iff ns conf _ _)

/-! ## A file that has just been brought up to date -/

/-- What a configuration must satisfy to be found in force in the file that was written from it,
`ns` being the number of its servers: it survives, its numbers are found equal to what is read
of them, which no NaN is, and a daemon has no input file. -/
structure Settles (isDaemon : Bool) (c : RadclockConfig) (ns : Nat) : Prop where
  survives : Survives c ns
  scale : getTemperatureConfig c = none → ∀ k,
    ((c.scale k).1 == strtod (printDouble 9 (c.scale k).1)) = true
  asym : ∀ k, ((c.asym k).1 == strtod (printDouble 6 (c.asym k).1)) = true
  input : isDaemon = true → c.text .syncInAscii = [] ∧ c.text .syncInPcap = []

section
variable {packageVersion key : Text} {isDaemon : Bool} {c : RadclockConfig} {ns : Nat}

/-- A keyword that stands for the metaparameters announces nothing. -/
theorem announces_quality {q : Quality} (h : getTemperatureConfig c = some q) :
    (TempLine.keyword q).announces c.temp = false := by
  have hsame := (same_of_getTemperatureConfig h).scale .tslimit
  have hunpack : (c.temp.scale .tslimit).1.toModel.unpack =
      (q.scale .tslimit).1.toModel.unpack :=
    unpack_congr hsame (by cases q <;> decide)
  show ((c.temp.scale .tslimit).1 - (q.scale .tslimit).1 != 0.0) = false
  rw [bne, Bool.not_eq_false', Float.beq_iff]
  show (Float.Model.pack ((c.temp.scale .tslimit).1.toModel.unpack.sub .binary64
    (q.scale .tslimit).1.toModel.unpack)).unpack.compare _ = _
  rw [hunpack]
  cases q <;> decide

/-- The lines written for the metaparameters announce no change exactly when each number is found
equal to what is read of it. -/
theorem not_announced_writtenLines_iff : ¬ Announced c.temp (writtenLines c) ↔
    (getTemperatureConfig c = none → ∀ k,
      ((c.scale k).1 == strtod (printDouble 9 (c.scale k).1)) = true) := by
  unfold writtenLines
  cases hq : getTemperatureConfig c with
  | some q => simp [announced_cons, not_announced_nil, announces_quality hq]
  | none =>
    -- no two lines are about the same number, so each is compared with the one in force before
    simp only [announced_cons, not_announced_nil, TempLine.announces, Temp.after,
      TempLine.scaleOf, TempLine.offsetOf, RadclockConfig.temp, List.reverse_singleton,
      List.findSome?_cons, List.findSome?_nil, reduceCtorEq, if_false, Option.getD_none, not_or,
      bne, Bool.not_eq_true', Bool.not_eq_false]
    constructor
    · rintro ⟨h1, h2, h3, h4, _, h6, _⟩ _ k
      cases k <;> assumption
    · intro h
      exact ⟨h trivial _, h trivial _, h trivial _, h trivial _, by simp, h trivial _, id⟩

theorem lastQuality_writtenLines : lastQuality (writtenLines c) = getTemperatureConfig c := by
  unfold writtenLines
  cases getTemperatureConfig c <;> rfl

/-- The label written for an option is the one it is compared with. -/
theorem option_same {k : OptionKey} {i : Nat} {label : Text} (h : k.labels[i]? = some label) :
    (optionSlot k).differs i label = false := by
  have hall : ∀ i : Fin k.labels.length,
      (optionSlot k).differs i.val (k.labels.get i) = false := by
    clear h
    cases k <;> decide
  obtain ⟨hi, rfl⟩ := List.getElem?_eq_some_iff.mp h
  exact hall ⟨i, hi⟩

/-- The options and the polling period that are written never differ. -/
theorem option_unchanged (hoption : ∀ k : OptionKey, (k.labels[c.option k]?).isSome = true)
    (k : OptionKey) : ∀ v ∈ valuesOf (.option k) (settings packageVersion c ns),
      (optionSlot k).differs (c.option k) v = false := by
  intro v hv
  obtain ⟨label, hlabel⟩ := Option.isSome_iff_exists.mp (hoption k)
  rw [valuesOf_settings _ (by simp [Key.bit]), writtenValues, hlabel, Option.getD_some,
    List.mem_singleton] at hv
  rw [hv]
  exact option_same hlabel

theorem pollPeriod_unchanged : ∀ v ∈ valuesOf .pollPeriod (settings packageVersion c ns),
    pollPeriodSlot.differs c.pollPeriod v = false := by
  intro v hv
  rw [valuesOf_settings _ (by simp [Key.bit]), writtenValues, List.mem_singleton] at hv
  rw [hv]
  simp [pollPeriodSlot, atoi_printInt]

theorem temp_unchanged_iff :
    (¬ Announced c.temp (tempLines false (settings packageVersion c ns)) ∧
      ∀ q ∈ lastQuality (tempLines false (settings packageVersion c ns)), c.temp.Same q.temp) ↔
    (getTemperatureConfig c = none → ∀ k,
      ((c.scale k).1 == strtod (printDouble 9 (c.scale k).1)) = true) := by
  rw [tempLines_settings, lastQuality_writtenLines, not_announced_writtenLines_iff]
  exact and_iff_left fun q hq => same_of_getTemperatureConfig hq

theorem phatInit_unchanged_iff :
    (∀ v ∈ (valuesOf .phatInit (settings packageVersion c ns)).getLast?,
      SameNumber (phatInitRead v).1 c.phatInit.1) ↔
    SameNumber (strtod (printGeneral c.phatInit.1)) c.phatInit.1 := by
  rw [valuesOf_settings _ (by simp [Key.bit]), writtenValues, List.getLast?_singleton]
  simp only [Option.mem_some_iff, forall_eq']
  exact phatInit_read_iff _

theorem asym_unchanged_iff (k : AsymKey) :
    (∀ v ∈ valuesOf (.asym k) (settings packageVersion c ns),
      asymSlot.differs (c.asym k) v = false) ↔
    ((c.asym k).1 == strtod (printDouble 6 (c.asym k).1)) = true := by
  rw [valuesOf_settings _ (by simp [Key.bit]), writtenValues]
  simp only [List.mem_singleton, forall_eq]
  simp [asymSlot, bne]

/-- A text that is not empty is written, and then only itself does not differ. -/
theorem text_unchanged_iff (k : TextKey) (t : Text) :
    (∀ v ∈ valuesOf (.text k) (settings packageVersion c ns), textSlot.differs t v = false) ↔
    (c.text k = [] ∨ c.text k = t) := by
  rw [valuesOf_settings _ (by simp [Key.bit]), writtenValues]
  split_ifs with hempty
  · simp [hempty]
  · simp only [List.mem_singleton, forall_eq, hempty, false_or]
    rw [textSlot, decide_eq_false_iff_not, not_not, eq_comm]

/-- What is written from a configuration is in force in it exactly when the numbers are found
equal, there is a server and, for a daemon, no input file. -/
theorem inForce_settings_iff (hoption : ∀ k : OptionKey, (k.labels[c.option k]?).isSome = true) :
    InForce packageVersion isDaemon true
        (liveInput isDaemon { c with radclockVersion := packageVersion }) ns
        (settings packageVersion c ns) ↔
      c.timeServer.block 0 ≠ [] ∧
      (getTemperatureConfig c = none → ∀ k,
        ((c.scale k).1 == strtod (printDouble 9 (c.scale k).1)) = true) ∧
      SameNumber (strtod (printGeneral c.phatInit.1)) c.phatInit.1 ∧
      (∀ k, ((c.asym k).1 == strtod (printDouble 6 (c.asym k).1)) = true) ∧
      (isDaemon = true → c.text .syncInAscii = [] ∧ c.text .syncInPcap = []) := by
  have hservers : valuesOf .timeServer (settings packageVersion c ns) = serverNames
      (liveInput isDaemon { c with radclockVersion := packageVersion }) ns ↔
        c.timeServer.block 0 ≠ [] := by
    rw [valuesOf_settings _ (by simp [Key.bit]), serverNames_liveInput]
    exact writtenServers_iff
  have htext : ∀ k, (liveInput isDaemon { c with radclockVersion := packageVersion }).text k =
      if isDaemon = true ∧ (k = .syncInAscii ∨ k = .syncInPcap) then [] else c.text k :=
    fun k => liveInput_text isDaemon _ k
  constructor
  · intro h
    refine ⟨hservers.mp h.servers, ?_, ?_, fun k => ?_, fun hdaemon => ?_⟩
    · have htemp := h.temp
      rw [liveInput_temp] at htemp
      exact temp_unchanged_iff.mp htemp
    · have hphat := h.phatInit
      rw [liveInput_phatInit] at hphat
      exact phatInit_unchanged_iff.mp hphat
    · have hasym := h.asym k
      rw [liveInput_asym] at hasym
      exact (asym_unchanged_iff k).mp hasym
    · -- the value written for an input file differs from none
      have hnone : ∀ k, k = .syncInAscii ∨ k = .syncInPcap → c.text k = [] := by
        intro k hk
        rcases (text_unchanged_iff k _).mp (h.text k) with hempty | hsame
        · exact hempty
        · rw [hsame, htext, if_pos ⟨hdaemon, hk⟩]
      exact ⟨hnone _ (.inl rfl), hnone _ (.inr rfl)⟩
  · rintro ⟨hserver, hscale, hnumber, hasyms, hinput⟩
    refine
      { version := by rw [liveInput_radclockVersion, if_pos rfl]
        option := fun k => ?_
        pollPeriod := ?_
        temp := ?_
        phatInit := ?_
        asym := fun k => ?_
        text := fun k => (text_unchanged_iff k _).mpr ?_
        dropped := fun k hdrop => ?_
        servers := hservers.mpr hserver }
    · rw [liveInput_option]
      exact option_unchanged hoption k
    · rw [liveInput_pollPeriod]
      exact pollPeriod_unchanged
    · rw [liveInput_temp]
      exact temp_unchanged_iff.mpr hscale
    · rw [liveInput_phatInit]
      exact phatInit_unchanged_iff.mpr hnumber
    · rw [liveInput_asym]
      exact (asym_unchanged_iff k).mpr (hasyms k)
    · rw [htext]
      split_ifs with hdaemon
      · obtain ⟨hdaemon, rfl | rfl⟩ := hdaemon
        · exact .inl (hinput hdaemon).1
        · exact .inl (hinput hdaemon).2
      · exact .inr rfl
    · rw [htext, if_pos ⟨hdrop.1, hdrop.2.1⟩]

/-- If the lines of a file that was written are in force, all its settings fit. -/
theorem fits_of_inForce (hver : Plain packageVersion) (hshort : packageVersion.length ≤ 226)
    {items : List Item} (hitems : configItems packageVersion (some c) ns = some items)
    (htidy : Tidy c) (hok : (entries key (linesOf (items.flatMap Item.render))).2 = true)
    (h : InForce packageVersion isDaemon true
      (liveInput isDaemon { c with radclockVersion := packageVersion }) ns
      (entries key (linesOf (items.flatMap Item.render))).1) : ∀ i ∈ items, i.Fits := by
  have hread : valuesOf .timeServer (entries key (linesOf (items.flatMap Item.render))).1 =
      serverNames c ns := h.servers.trans (serverNames_liveInput ..)
  have hclean : ∀ name ∈ serverNames c ns, Clean name := fun name hname => by
    rw [← hread] at hname
    exact clean_entries _ key (isLine_readLines _ _ [] (by simp)) _ (mem_of_mem_valuesOf hname)
  by_contra hnot
  rcases cut_of_not_fits hver hshort hitems hok htidy hclean hnot with
    ⟨k, v, vs, hv, hne, hvalues⟩ | hne
  · have hsame := h.text k v (by
      rw [hvalues]
      exact List.mem_cons_self)
    rw [textSlot, decide_eq_false_iff_not, not_not, liveInput_text] at hsame
    split_ifs at hsame
    · exact hv hsame.symm
    · exact hne hsame.symm
  · exact hne hread

end

/-- When an outdated file has been brought up to date and both parses return, the second has
changed nothing if and only if the configuration that was written settles. Of the configuration
before the first parse only the texts matter, which must be such as a file can carry. -/
theorem rehash_outdated_iff {packageVersion : Text} (hver : Plain packageVersion)
    (hshort : packageVersion.length ≤ 226) (key key' : Text) (isDaemon : Bool) (text : Text)
    (conf : RadclockConfig) (htidy : Tidy conf) (ns : Nat)
    (hold : (writtenConf ns key text conf UPDMASK_NOUPD).radclockVersion ≠ packageVersion) :
    Exec.Returns (parseTwice packageVersion key key' isDaemon ⟨some text, true⟩ conf ns)
      fun pp => NoOp pp.1.conf pp.1.ns pp.2 ↔
        Settles isDaemon (writtenConf ns key text conf UPDMASK_NOUPD)
          (parsedState ns key text conf UPDMASK_NOUPD).nf := by
  intro pp hpp
  obtain ⟨p, hp, hrest⟩ := Exec.bind_res_some.mp hpp
  obtain ⟨p', hp', hpair⟩ := Exec.bind_res_some.mp hrest
  cases hpair
  obtain ⟨items, hitems, rfl⟩ := configParse_outdated hold hp
  have htidy' : Tidy (writtenConf ns key text conf UPDMASK_NOUPD) := tidy_writtenConf htidy
  have hlabels := isSome_label_of_configItems hitems
  refine (configParse_noOp_iff p' hp').trans ⟨fun h => ?_, fun h => ?_⟩
  · have hfits := fits_of_inForce hver hshort hitems htidy' (configParse_res hp').1 h
    rw [entries_written hitems hfits] at h
    obtain ⟨hserver, hscale, hphat, hasym, hinput⟩ := (inForce_settings_iff hlabels).mp h
    exact
      { survives := survives_of_fits hitems hfits hserver
          (fun hnone k => .symm (.inr (hscale hnone k))) hphat fun k => .symm (.inr (hasym k))
        scale := hscale
        asym := hasym
        input := hinput }
  · rw [entries_written hitems (h.survives.fits hver hshort hitems)]
    exact (inForce_settings_iff hlabels).mpr
      ⟨h.survives.server, h.scale, h.survives.phatInit.2, h.asym, h.input⟩

/-- A polling period out of range is a change each time it is read. -/
theorem not_rehash_noOp_pollPeriod : ¬ Exec.Returns
    (parseTwice "1.0".toList blankKey blankKey true ⟨some "polling_period = 2000\n".toList, true⟩
      (configInit "1.0".toList fun _ => []) 1)
    fun pp => NoOp pp.1.conf pp.1.ns pp.2 := by
  intro h
  obtain ⟨pp, hpp⟩ := Option.isSome_iff_exists.mp (show (parseTwice "1.0".toList blankKey blankKey
    true ⟨some "polling_period = 2000\n".toList, true⟩ (configInit "1.0".toList fun _ => [])
    1).res.isSome = true by decide +kernel)
  have hquiet := (rehash_noOp_iff _ _ _ _ _ _ _ _ pp hpp).mp (h pp hpp)
  have hdiffers := hquiet.pollPeriod "2000".toList (by decide +kernel)
  revert hdiffers
  decide +kernel

end RADclock.ConfigMgr
