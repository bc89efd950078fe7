import RADclock.Config.Parse

/-!
# The memory of the server names

`config_init` allocates one block for the names of the time servers, `update_data` extends the
memory when a rehash finds more names than the last parse, and `config_parse` trims it when there
are fewer. The number of servers also counts the per-server arrays, which `init_mRADclocks`
allocates once, after the first parse.

At startup the number of servers of the previous parse is `0`, which the source takes to mean
that the storage is there: the second name goes behind the one block allocated. And a rehash
changes the number of servers without the arrays.

- `Daemon`, `startup`, `runDaemon`: the first parse, then rehashes and changes of the preferred
  server in any order.
- `ServersSafe`: what should hold after every parse.
- `OneServer`: the file names one server.
- `servers_safe`: as long as every file names one server, it does.
-/

namespace RADclock.ConfigMgr

open Lib

/-! ## The daemon -/

/-- What the handle holds of the servers: the configuration, `nservers`, the length of the
arrays of `init_mRADclocks`, and the preferred server. -/
structure Daemon where
  conf : RadclockConfig
  nservers : Nat
  arrays : Nat
  prefSID : Nat

/-- The configuration before the first parse, with a server given on the command line (`-t`). -/
def commandLine (packageVersion : Text) (beyond : Nat → Text) (server : Option Text) :
    RadclockConfig × UInt32 :=
  let conf := configInit packageVersion beyond
  match server with
  | none => (conf, UPDMASK_NOUPD)
  | some name =>
    ({ conf with timeServer :=
        { conf.timeServer with block := Function.update conf.timeServer.block 0 name } },
      setUpdate UPDMASK_NOUPD .timeServer)

section
variable (packageVersion : Text) (isDaemon : Bool)

/-- `main` up to `init_mRADclocks`; `none` when the parse fails and the program ends. -/
def startup (beyond : Nat → Text) (server : Option Text) (key : Text) (file : ConfFile) :
    Exec ServerWrite (Option Daemon) := do
  let (conf, mask) := commandLine packageVersion beyond server
  let p ← configParse packageVersion key isDaemon file conf mask 0
  pure (if p.ok then some ⟨p.conf, p.ns, p.ns, 0⟩ else none)

/-- What happens to the handle once the daemon runs. -/
inductive Event where
  /-- `rehash_daemon`, with the key buffer and the file the parse finds. -/
  | rehash (key : Text) (file : ConfFile)
  /-- `process_stamp` has chosen a preferred server among those there are. -/
  | prefer (s : Nat)

def Daemon.step (d : Daemon) : Event → Exec ServerWrite Daemon
  | .rehash key file => do
    let p ← configParse packageVersion key isDaemon file d.conf UPDMASK_NOUPD d.nservers
    pure { d with conf := p.conf, nservers := p.ns }
  | .prefer s => pure (if 1 < d.nservers ∧ s < d.nservers then { d with prefSID := s } else d)

def Daemon.run : List Event → Daemon → Exec ServerWrite Daemon
  | [], d => pure d
  | e :: es, d => do
    let d ← d.step packageVersion isDaemon e
    Daemon.run es d

/-- The first parse, and what follows it. -/
def runDaemon (beyond : Nat → Text) (server : Option Text) (key : Text) (file : ConfFile)
    (events : List Event) : Exec ServerWrite (Option Daemon) := do
  let d ← startup packageVersion isDaemon beyond server key file
  match d with
  | none => pure none
  | some d => some <$> d.run packageVersion isDaemon events

end

/-! ## What should hold -/

/-- The copy is within the memory allocated. -/
def ServerWrite.Inside (w : ServerWrite) : Prop := w.offset + w.length ≤ w.size

instance (w : ServerWrite) : Decidable w.Inside :=
  inferInstanceAs (Decidable (w.offset + w.length ≤ w.size))

/-- The memory holds one block for each of at least one server, every server has its place in
the arrays, and the preferred server is one of them. -/
structure ServersSafe (d : Daemon) : Prop where
  blocks : d.conf.timeServer.size = d.nservers * MAXLINE
  some : 1 ≤ d.nservers
  arrays : d.nservers ≤ d.arrays
  pref : d.prefSID < d.nservers

/-- How many entries name a time server. -/
def serverLines (es : List (Key × Text)) : Nat := es.countP fun e => e.1 = .timeServer

/-- The file names exactly one server (at most one, if it has a line that cannot be read), or is
not there. -/
def OneServer (key : Text) (file : ConfFile) : Prop :=
  ∀ text ∈ file.text,
    serverLines (entries key (readLines (MAXLINE - 1) [] text)).1 ≤ 1 ∧
    ((entries key (readLines (MAXLINE - 1) [] text)).2 = true →
      serverLines (entries key (readLines (MAXLINE - 1) [] text)).1 = 1)

instance (key : Text) (file : ConfFile) : Decidable (OneServer key file) :=
  inferInstanceAs (Decidable (∀ text ∈ file.text, _))

/-- Every file parsed at a rehash does. -/
def OneServerEach (events : List Event) : Prop :=
  ∀ e ∈ events, match e with
    | .rehash key file => OneServer key file
    | .prefer _ => True

/-! ## Lengths -/

theorem length_readLines_le (max : Nat) (hmax : 0 < max) (t : Text) :
    ∀ cur, cur.length < max → ∀ line ∈ readLines max cur t, line.length ≤ max := by
  induction t with
  | nil =>
    intro cur hcur line hline
    rw [readLines] at hline
    split at hline
    · cases hline
    · rw [List.mem_singleton.mp hline]
      omega
  | cons c t ih =>
    intro cur hcur line hline
    have hlen : (cur ++ [c]).length = cur.length + 1 := by simp
    rw [readLines] at hline
    split at hline
    · rcases List.mem_cons.mp hline with rfl | hline
      · omega
      · exact ih [] hmax line hline
    · exact ih (cur ++ [c]) (by omega) line hline

theorem length_dropWhile_le (p : Char → Bool) (t : Text) : (t.dropWhile p).length ≤ t.length :=
  (List.dropWhile_suffix p).length_le

theorem length_takeWhile_le (p : Char → Bool) (t : Text) : (t.takeWhile p).length ≤ t.length :=
  (List.takeWhile_prefix p).length_le

/-- The value of a line is not longer than the line. -/
theorem length_extractValue_le (c : Text) : (extractValue c).length ≤ c.length := by
  have hvalue : ((c.dropWhile fun ch => ch = '=' ∨ isTab ch).takeWhile (· ≠ '#')).length
      ≤ c.length :=
    le_trans (length_takeWhile_le _ _) (length_dropWhile_le _ _)
  unfold extractValue
  simp only
  split_ifs
  · exact le_trans (List.rdropWhile_prefix _ _).length_le hvalue
  · exact Nat.zero_le _
  · exact hvalue

theorem length_value_le {key line key' label value : Text}
    (h : extractKeyValue key line = .entry key' label value) : value.length ≤ line.length := by
  unfold extractKeyValue at h
  simp only at h
  split_ifs at h
  injection h with _ _ h
  rw [← h]
  exact le_trans (length_extractValue_le _)
    (le_trans (length_dropWhile_le _ _) (length_dropWhile_le _ _))

theorem length_entries_le (max : Nat) (lines : List Text) :
    ∀ key, (∀ line ∈ lines, line.length ≤ max) →
      ∀ e ∈ (entries key lines).1, e.2.length ≤ max := by
  -- a value is part of its line, whatever the key
  induction lines with
  | nil =>
    intro key _ e he
    cases he
  | cons line lines ih =>
    intro key hlines e he
    have htail : ∀ l ∈ lines, l.length ≤ max := fun l hl => hlines l (List.mem_cons_of_mem _ hl)
    rw [entries] at he
    cases hx : extractKeyValue key (cstring line) with
    | skip =>
      rw [hx] at he
      exact ih key htail e he
    | fault =>
      rw [hx] at he
      cases he
    | entry key' label value =>
      rw [hx] at he
      have hvalue : value.length ≤ max :=
        le_trans (length_value_le hx)
          (le_trans (length_takeWhile_le _ _) (hlines line List.mem_cons_self))
      simp only at he
      split_ifs at he
      · exact ih key' htail e he
      · rcases List.mem_cons.mp he with rfl | he
        · exact hvalue
        · exact ih key' htail e he

/-- The names of a file fit into their blocks, with the terminator. -/
theorem length_entry_lt (key text : Text) :
    ∀ e ∈ (entries key (readLines (MAXLINE - 1) [] text)).1, e.2.length < MAXLINE := by
  intro e he
  have hlines := length_readLines_le (MAXLINE - 1) (by decide) text [] (by decide)
  exact Nat.lt_of_le_of_lt (length_entries_le (MAXLINE - 1) _ key hlines e he) (by decide)

/-! ## One server -/

/-- Only the case of the time servers writes to their memory. -/
theorem updateField_timeServer (st : ParseState) (k : Key) (value : Text) :
    (updateField st k value).conf.timeServer = st.conf.timeServer ∧
      (updateField st k value).nf = st.nf := by
  cases k with
  | option k => simp only [updateField, optionCase, guarded]; split <;> exact ⟨rfl, rfl⟩
  | pollPeriod => simp only [updateField, pollPeriodCase, guarded]; split <;> exact ⟨rfl, rfl⟩
  | asym k => simp only [updateField, asymCase, guarded]; split <;> exact ⟨rfl, rfl⟩
  | text k => simp only [updateField, textCase, guarded]; split <;> exact ⟨rfl, rfl⟩
  | scale k => simp only [updateField, scaleCase]; split <;> exact ⟨rfl, rfl⟩
  | offsetRatio => simp only [updateField, offsetRatioCase]; split <;> exact ⟨rfl, rfl⟩
  | tempQuality =>
    simp only [updateField, tempQualityCase]
    cases findQuality value <;> exact ⟨rfl, rfl⟩
  | _ => exact ⟨rfl, rfl⟩

/-- A name for the first block, when one block is there and is taken to be there. -/
theorem timeServerCase_first {ns : Nat} {st : ParseState} {value : Text} (hns : ns ≤ 1)
    (hnf : st.nf = 0) (hsize : st.conf.timeServer.size = MAXLINE)
    (hvalue : value.length < MAXLINE) :
    Exec.Sat ServerWrite.Inside True (timeServerCase ns st value) fun st' =>
      st'.conf.timeServer.size = MAXLINE ∧ st'.nf = 1 := by
  unfold timeServerCase
  refine Exec.Sat.ite (fun _ => Exec.Sat.pure ⟨hsize, rfl⟩) fun _ => ?_
  rw [if_pos (show ns = 0 ∨ st.nf < ns by omega)]
  refine Exec.Sat.bind (Q := fun mem => mem.size = MAXLINE) ?_ fun mem hmem => ?_
  · refine Exec.Sat.bind (Q := fun _ => True) (Exec.Sat.emit ?_ trivial) fun _ _ =>
      Exec.Sat.pure hsize
    show st.nf * MAXLINE + (value.length + 1) ≤ st.conf.timeServer.size
    rw [hnf, hsize, Nat.zero_mul, Nat.zero_add]
    exact hvalue
  · exact Exec.Sat.pure ⟨hmem, by simp [hnf]⟩

theorem applyEntries_one {ns : Nat} (hns : ns ≤ 1) (es : List (Key × Text)) :
    ∀ st : ParseState, (∀ e ∈ es, e.2.length < MAXLINE) →
      st.conf.timeServer.size = MAXLINE → st.nf + serverLines es ≤ 1 →
      Exec.Sat ServerWrite.Inside True (applyEntries ns es st) fun st' =>
        st'.conf.timeServer.size = MAXLINE ∧ st'.nf = st.nf + serverLines es := by
  induction es with
  | nil => exact fun st _ hsize _ => Exec.Sat.pure ⟨hsize, rfl⟩
  | cons e es ih =>
    intro st hlen hsize hcount
    have htail : ∀ e ∈ es, e.2.length < MAXLINE := fun e he => hlen e (List.mem_cons_of_mem _ he)
    obtain ⟨k, value⟩ := e
    by_cases hk : k = .timeServer
    · subst hk
      have hlines : serverLines ((.timeServer, value) :: es) = serverLines es + 1 := by
        simp [serverLines]
      have hnf : st.nf = 0 := by omega
      refine Exec.Sat.bind (timeServerCase_first hns hnf hsize (hlen _ List.mem_cons_self))
        fun st' hst' => ?_
      refine Exec.Sat.mono (ih st' htail hst'.1 (by omega)) fun st'' h => ⟨h.1, by omega⟩
    · have hlines : serverLines ((k, value) :: es) = serverLines es := by
        simp [serverLines, hk]
      have hupd : updateData ns st k value = pure (updateField st k value) := by
        cases k <;> first | rfl | exact absurd rfl hk
      obtain ⟨hmem, hnf⟩ := updateField_timeServer st k value
      rw [applyEntries, hupd, pure_bind]
      refine Exec.Sat.mono (ih _ htail (by rw [hmem, hsize]) (by omega)) fun st'' h =>
        ⟨h.1, by omega⟩

/-- A parse of a file with one server, when the last one found one or it is the first. -/
theorem configParse_one {packageVersion key : Text} {isDaemon : Bool} {file : ConfFile}
    {conf : RadclockConfig} {mask : UInt32} {ns : Nat} (hfile : OneServer key file)
    (hns : ns ≤ 1) (hsize : conf.timeServer.size = MAXLINE) :
    Exec.Sat ServerWrite.Inside True (configParse packageVersion key isDaemon file conf mask ns)
      fun p => p.conf.timeServer.size = MAXLINE ∧ (p.ns = 1 ∨ p.ok = false ∧ p.ns = ns) := by
  unfold configParse
  cases htext : file.text with
  | none =>
    exact Exec.Sat.ite (fun _ => Exec.Sat.pure ⟨hsize, .inl rfl⟩)
      fun _ => Exec.Sat.pure ⟨hsize, .inr ⟨rfl, rfl⟩⟩
  | some text =>
    obtain ⟨hle, hone⟩ := hfile text htext
    have happly := applyEntries_one hns _ ⟨conf, mask, 0, false⟩ (length_entry_lt key text) hsize
      (by simpa using hle)
    simp only [parseLines_eq, bind_assoc]
    refine Exec.Sat.bind happly fun st hst => ?_
    cases hok : (entries key (readLines (MAXLINE - 1) [] text)).2 with
    | false => exact Exec.Sat.halt trivial
    | true =>
      have hnf : st.nf = 1 := by
        have := hst.2
        rw [hone hok] at this
        simpa using this
      have htrim : trimServers ns st.nf st.conf = st.conf := if_neg (by omega)
      simp only [if_true, pure_bind, htrim]
      have hlive : ∀ c, c.timeServer = st.conf.timeServer →
          (liveInput isDaemon c).timeServer.size = MAXLINE := by
        intro c hc
        rw [liveInput_timeServer, hc, hst.1]
      refine Exec.Sat.ite (fun _ => Exec.Sat.pure ⟨hlive _ rfl, .inl hnf⟩) fun _ => ?_
      refine Exec.Sat.ite (fun _ => ?_) fun _ => Exec.Sat.pure ⟨hst.1, .inl hnf⟩
      exact Exec.Sat.bind (Exec.Sat.deref (fun _ => trivial) fun _ _ => trivial)
        fun _ _ => Exec.Sat.pure ⟨hlive _ rfl, .inl hnf⟩

/-! ## Runs -/

/-- What a daemon with one server keeps. -/
structure Single (d : Daemon) : Prop where
  size : d.conf.timeServer.size = MAXLINE
  nservers : d.nservers = 1
  arrays : d.arrays = 1
  pref : d.prefSID = 0

theorem Single.safe {d : Daemon} (h : Single d) : ServersSafe d where
  blocks := by rw [h.size, h.nservers, Nat.one_mul]
  some := h.nservers.ge
  arrays := by rw [h.nservers, h.arrays]
  pref := by rw [h.pref, h.nservers]; exact Nat.one_pos

section
variable {packageVersion : Text} {isDaemon : Bool}

theorem single_startup {beyond : Nat → Text} {server : Option Text} {key : Text}
    {file : ConfFile} (hfile : OneServer key file) :
    Exec.Sat ServerWrite.Inside True
      (startup packageVersion isDaemon beyond server key file) (Option.elim · True Single) := by
  have hsize : (commandLine packageVersion beyond server).1.timeServer.size = MAXLINE := by
    cases server <;> exact Nat.one_mul _
  refine Exec.Sat.bind (configParse_one hfile (Nat.zero_le 1) hsize) fun p hp => Exec.Sat.pure ?_
  cases hok : p.ok with
  | false => exact trivial
  | true =>
    have hns : p.ns = 1 := hp.2.resolve_right (by simp [hok])
    exact ⟨hp.1, hns, hns, rfl⟩

theorem single_step {d : Daemon} (h : Single d) (e : Event)
    (he : match e with | .rehash key file => OneServer key file | .prefer _ => True) :
    Exec.Sat ServerWrite.Inside True (d.step packageVersion isDaemon e) Single := by
  cases e with
  | rehash key file =>
    refine Exec.Sat.bind (configParse_one he h.nservers.le h.size) fun p hp => Exec.Sat.pure ?_
    have hns : p.ns = 1 := hp.2.elim id fun hfail => hfail.2.trans h.nservers
    exact ⟨hp.1, hns, h.arrays, h.pref⟩
  | prefer s =>
    refine Exec.Sat.pure ?_
    rw [if_neg (by rw [h.nservers]; omega)]
    exact h

theorem single_run (events : List Event) :
    ∀ d, Single d → OneServerEach events →
      Exec.Sat ServerWrite.Inside True (d.run packageVersion isDaemon events) Single := by
  induction events with
  | nil => exact fun d h _ => Exec.Sat.pure h
  | cons e events ih =>
    intro d h hev
    refine Exec.Sat.bind (single_step h e (hev e List.mem_cons_self)) fun d' h' => ?_
    exact ih d' h' fun e he => hev e (List.mem_cons_of_mem _ he)

end

/-- In every run whose files each name one server, every copy of a name is within the memory
allocated, and after every parse the memory, the arrays and the preferred server fit the number
of servers. -/
theorem servers_safe (packageVersion : Text) (isDaemon : Bool) (beyond : Nat → Text)
    (server : Option Text) (key : Text) (file : ConfFile) (events : List Event)
    (hfile : OneServer key file) (hevents : OneServerEach events) :
    Exec.Sat ServerWrite.Inside True
      (runDaemon packageVersion isDaemon beyond server key file events)
      (Option.elim · True ServersSafe) := by
  refine Exec.Sat.bind (single_startup hfile) fun d hd => ?_
  cases d with
  | none => exact Exec.Sat.pure trivial
  | some d =>
    refine Exec.Sat.bind (single_run events d hd hevents) fun d' hd' => ?_
    exact Exec.Sat.pure hd'.safe

def oneServerFile (name : String) : ConfFile :=
  ⟨some ("time_server = " ++ name ++ "\n").toList, true⟩

/-- A server that is replaced at a rehash. -/
theorem servers_safe_replaced : Exec.Sat ServerWrite.Inside True
    (runDaemon "1.0".toList true (fun _ => []) none blankKey (oneServerFile "ntp1")
      [.rehash blankKey (oneServerFile "ntp2")]) (Option.elim · True ServersSafe) := by
  have hone : ∀ name ∈ ["ntp1", "ntp2"], OneServer blankKey (oneServerFile name) := by
    decide +kernel
  refine servers_safe "1.0".toList true (fun _ => []) none blankKey (oneServerFile "ntp1")
    [.rehash blankKey (oneServerFile "ntp2")] (hone _ (by decide)) fun e he => ?_
  rw [List.mem_singleton.mp he]
  exact hone _ (by decide)

/-- Two servers at startup: the second name is copied behind the memory allocated. -/
theorem not_servers_safe_two : ¬ Exec.Sat ServerWrite.Inside True
    (runDaemon "1.0".toList true (fun _ => []) none blankKey
      ⟨some "time_server = ntp1\ntime_server = ntp2\n".toList, true⟩ [])
    (Option.elim · True ServersSafe) := by
  intro h
  have hsecond : (⟨1 * MAXLINE, 5, MAXLINE⟩ : ServerWrite) ∈
      (runDaemon "1.0".toList true (fun _ => []) none blankKey
        ⟨some "time_server = ntp1\ntime_server = ntp2\n".toList, true⟩ []).log := by
    decide +kernel
  exact absurd (h.1 _ hsecond) (by decide)

end RADclock.ConfigMgr
