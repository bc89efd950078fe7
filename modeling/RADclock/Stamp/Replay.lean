import RADclock.Lib.ScanLine
import RADclock.Stamp.Ascii

/-!
# Reading a stamp file to its end (`stampinput-ascii.c`)

The reader is called until it reports the end of the file. Its two loops that skip the rest of a
line wait for a newline and for nothing else, so they never end when there is none.

- `ReplayEnds`: every call returns, each further in the file, and the last reports its end.
- `lines`: the lines of a file, and what follows its last newline.
- `recordLine`: a record starts at the start of a line and takes six columns, over several lines
  when there are too few; the rest of the line in which it ends is dropped.
- `replayTerminates_iff`: the reader comes to the end exactly when only white space follows the
  last newline and no record has been begun and not ended before it.
-/

namespace RADclock

open Lib

variable {D : Type} [DecimalText D]

/-! ## The end of the file -/

/-- The calls of `asciistamp_get_next` return, each after at least one byte, until one of them
reports the end of the file. The `i`-th call finds `bufs i` in the caller's stamp. -/
inductive ReplayEnds : (Nat → StampT D) → Text → Prop where
  | eof {bufs : Nat → StampT D} {fd : Text} (h : asciistampGetNext (bufs 0) fd = .eof) :
    ReplayEnds bufs fd
  | stamp {bufs : Nat → StampT D} {fd fd' : Text} {s : StampT D}
    (h : asciistampGetNext (bufs 0) fd = .stamp s fd') (hless : fd'.length < fd.length)
    (hrest : ReplayEnds (fun i => bufs (i + 1)) fd') : ReplayEnds bufs fd

/-- `open_timestamp` returns, and so do the calls after it. -/
def ReplayTerminates (bufs : Nat → StampT D) (file : Text) : Prop :=
  ∃ fd, openTimestamp file = some fd ∧ ReplayEnds bufs fd

/-! ## Lines and records -/

/-- The lines that a newline ends, and what follows the last one; `cur` has been read of the
current line. -/
def linesFrom (cur : Text) : Text → List Text × Text
  | [] => ([], cur)
  | c :: t =>
    if c = '\n' then (cur :: (linesFrom [] t).1, (linesFrom [] t).2) else linesFrom (cur ++ [c]) t

def lines (t : Text) : List Text × Text := linesFrom [] t

/-- The text of some lines and what follows them. -/
def joinLines (ls : List Text) (last : Text) : Text := ls.foldr (fun l t => l ++ '\n' :: t) last

/-- A conversion of the format. -/
inductive Column where
  | unsigned | number | int
deriving DecidableEq, Repr

def Column.scan : Column → Text → Conv Unit
  | .unsigned, t => (scanUnsigned t).map fun _ => ()
  | .number, t => (scanLongDouble t).map fun _ => ()
  | .int, t => (scanInt t).map fun _ => ()

/-- `"%llu %Lf %Lf %llu %llu %d"`. -/
def columns : List Column := [.unsigned, .number, .number, .unsigned, .unsigned, .int]

/-- The columns that a record still needs after a line: none if the line has them all or one
that cannot be converted. -/
def lineColumns : List Column → Text → List Column
  | [], _ => []
  | c :: cs, l =>
    match c.scan l with
    | .assigned _ rest => lineColumns cs rest
    | .inputFailure => c :: cs
    | .matchingFailure _ => []

/-- The columns that are needed after a line, when `cs` are before it. The line after the end of
a record starts the next one. -/
def recordLine (cs : List Column) (l : Text) : List Column :=
  if lineColumns cs l = [] then columns else lineColumns cs l

/-- `%` lines at the start are skipped. -/
def isComment (l : Text) : Bool := l.head? = some '%'

/-- The columns that the record under way at the end of the last line still needs. -/
def neededAtEnd (file : Text) : List Column :=
  ((lines file).1.dropWhile isComment).foldl recordLine columns

/-- Nothing but white space follows the last newline, and no record is under way there. -/
def EndsBetweenRecords (file : Text) : Prop :=
  skipSpace (lines file).2 = [] ∧ neededAtEnd file = columns

instance (file : Text) : Decidable (EndsBetweenRecords file) :=
  inferInstanceAs (Decidable (_ ∧ _))

/-- The lines of a text make the text. -/
theorem joinLines_linesFrom (t : Text) :
    ∀ cur, joinLines (linesFrom cur t).1 (linesFrom cur t).2 = cur ++ t := by
  induction t with
  | nil => exact fun cur => (List.append_nil cur).symm
  | cons c t ih =>
    intro cur
    rw [linesFrom]
    by_cases hc : c = '\n'
    · rw [if_pos hc, hc]
      exact congrArg (cur ++ '\n' :: ·) (ih [])
    · rw [if_neg hc, ih]
      simp

/-- None of them has a newline in it. -/
theorem newline_notMem_linesFrom (t : Text) :
    ∀ cur, '\n' ∉ cur → (∀ l ∈ (linesFrom cur t).1, '\n' ∉ l) ∧ '\n' ∉ (linesFrom cur t).2 := by
  induction t with
  | nil => exact fun cur hcur => ⟨fun l hl => (nomatch hl), hcur⟩
  | cons c t ih =>
    intro cur hcur
    rw [linesFrom]
    by_cases hc : c = '\n'
    · rw [if_pos hc]
      obtain ⟨hls, hlast⟩ := ih [] (by simp)
      refine ⟨fun l hl => ?_, hlast⟩
      rcases List.mem_cons.mp hl with rfl | hl
      · exact hcur
      · exact hls l hl
    · rw [if_neg hc]
      refine ih _ ?_
      simp only [List.mem_append, List.mem_singleton, not_or]
      exact ⟨hcur, fun h => hc h.symm⟩

/-! ## Where a call stops -/

/-- Where the conversions stop. -/
def stopsAt : List Column → Text → Text
  | [], fd => fd
  | c :: cs, fd =>
    match c.scan fd with
    | .assigned _ rest => stopsAt cs rest
    | .inputFailure => []
    | .matchingFailure rest => rest

/-- An integer fails for want of input exactly on white space. -/
theorem scanInteger_blank (t : Text) : scanInteger t = .inputFailure ↔ skipSpace t = [] := by
  unfold scanInteger
  split
  · rename_i h
    simp [h]
  · rename_i c t' h
    rw [h]
    simp only
    split <;> simp

/-- So does a number. -/
theorem scanLongDouble_blank (t : Text) : scanLongDouble t = .inputFailure ↔ skipSpace t = [] := by
  unfold scanLongDouble
  split
  · rename_i h
    simp [h]
  · rename_i c t' h
    rw [h]
    simp only
    split <;> simp

/-- What is made of the value does not change the failure. -/
@[simp] theorem Conv.map_eq_inputFailure {α β : Type} (f : α → β) (c : Conv α) :
    c.map f = .inputFailure ↔ c = .inputFailure := by
  cases c <;> simp [Conv.map]

/-- Nor where the conversion stops. -/
@[simp] theorem Conv.map_rest? {α β : Type} (f : α → β) (c : Conv α) :
    (c.map f).rest? = c.rest? := by
  cases c <;> rfl

/-- Nor what comes after it. -/
@[simp] theorem Conv.map_after {α β : Type} (f : α → β) (r : Text) (c : Conv α) :
    (c.after r).map f = (c.map f).after r := by
  cases c <;> rfl

/-- A column fails for want of input exactly on white space. -/
theorem Column.scan_blank (c : Column) (t : Text) :
    c.scan t = .inputFailure ↔ skipSpace t = [] := by
  cases c with
  | unsigned => simp [Column.scan, scanUnsigned, scanInteger_blank]
  | number => simp [Column.scan, scanLongDouble_blank]
  | int => simp [Column.scan, scanInt, scanInteger_blank]

/-- A column is read from its line, or from the next one if the line is blank. -/
theorem Column.scan_line (c : Column) (l r : Text) :
    c.scan (l ++ '\n' :: r) = if skipSpace l = [] then c.scan r else (c.scan l).after r := by
  cases c with
  | unsigned =>
    simp only [Column.scan, scanUnsigned, scanInteger_line]
    split <;> simp
  | number =>
    simp only [Column.scan, scanLongDouble_line]
    split <;> simp
  | int =>
    simp only [Column.scan, scanInt, scanInteger_line]
    split <;> simp

/-- What is left after a column is the end of the text. -/
theorem Column.scan_suffix {c : Column} {t rest : Text} (h : (c.scan t).rest? = some rest) :
    rest <:+ t := by
  cases c with
  | unsigned => exact scanInteger_suffix (by simpa [Column.scan, scanUnsigned] using h)
  | number => exact scanLongDouble_suffix (by simpa [Column.scan] using h)
  | int => exact scanInteger_suffix (by simpa [Column.scan, scanInt] using h)

/-- So it is after any columns. -/
theorem stopsAt_suffix (cs : List Column) : ∀ t, stopsAt cs t <:+ t := by
  induction cs with
  | nil => exact fun t => List.suffix_rfl
  | cons c cs ih =>
    intro t
    rw [stopsAt]
    cases hc : c.scan t with
    | assigned _ rest => exact (ih rest).trans (Column.scan_suffix (by rw [hc]; rfl))
    | inputFailure => exact List.nil_suffix
    | matchingFailure rest => exact Column.scan_suffix (by rw [hc]; rfl)

/-- Where a call of `fscanf` stops, and when it ends the replay. -/
theorem fscanfStamp_stopsAt (stamp : StampT D) (fd : Text) :
    (fscanfStamp stamp fd).map (·.2.2) =
      if skipSpace fd = [] then none else some (stopsAt columns fd) := by
  by_cases hblank : skipSpace fd = []
  · have hfail : scanUnsigned fd = .inputFailure := by
      simp [scanUnsigned, scanInteger_blank, hblank]
    rw [if_pos hblank, fscanfStamp, hfail]
    rfl
  · rw [if_neg hblank]
    have hfail : scanUnsigned fd ≠ .inputFailure := by
      simp [scanUnsigned, scanInteger_blank, hblank]
    have hconvert : ∀ {α : Type} (c : Conv α) (cs : List Column)
        (stop : Text → StampT D × Int32 × Text) (next : α → Text → StampT D × Int32 × Text),
        (∀ rest, (stop rest).2.2 = rest) → (∀ a rest, (next a rest).2.2 = stopsAt cs rest) →
        (convert c stop next).2.2 =
          match c.map fun _ => () with
          | .assigned _ rest => stopsAt cs rest
          | .inputFailure => []
          | .matchingFailure rest => rest := by
      intro α c cs stop next hstop hnext
      cases c with
      | assigned a rest => exact hnext a rest
      | inputFailure => exact hstop []
      | matchingFailure rest => exact hstop rest
    rw [fscanfStamp, columns, stopsAt, Column.scan]
    cases h : scanUnsigned fd with
    | inputFailure => exact absurd h hfail
    | matchingFailure rest => rfl
    | assigned Ta fd =>
      refine congrArg some ?_
      refine hconvert _ _ _ _ (fun _ => rfl) fun Tb fd => ?_
      refine hconvert _ _ _ _ (fun _ => rfl) fun Te fd => ?_
      refine hconvert _ _ _ _ (fun _ => rfl) fun Tf fd => ?_
      refine hconvert _ _ _ _ (fun _ => rfl) fun id fd => ?_
      exact hconvert _ [] _ _ (fun _ => rfl) fun sID fd => rfl

/-- What a call does with the file. -/
theorem asciistampGetNext_cases (stamp : StampT D) (fd : Text) :
    (skipSpace fd = [] ∧ asciistampGetNext stamp fd = .eof) ∨
    (skipSpace fd ≠ [] ∧ skipLine (stopsAt columns fd) = none ∧
      asciistampGetNext stamp fd = .hang) ∨
    (∃ s fd', skipLine (stopsAt columns fd) = some fd' ∧
      asciistampGetNext stamp fd = .stamp s fd') := by
  have hstops := fscanfStamp_stopsAt stamp fd
  unfold asciistampGetNext
  by_cases hblank : skipSpace fd = []
  · rw [if_pos hblank, Option.map_eq_none_iff] at hstops
    rw [hstops]
    exact .inl ⟨hblank, rfl⟩
  · rw [if_neg hblank] at hstops
    obtain ⟨⟨s, sID, rest⟩, hscan, hrest⟩ := Option.map_eq_some_iff.mp hstops
    rw [hscan, ← hrest]
    cases hskip : skipLine rest with
    | none => exact .inr (.inl ⟨hblank, rfl, by simp only [hskip]⟩)
    | some fd' => exact .inr (.inr ⟨_, fd', rfl, by simp only [hskip]; rfl⟩)

/-- A line without an end is skipped for ever. -/
theorem skipLine_eq_none {t : Text} (h : '\n' ∉ t) : skipLine t = none := by
  induction t with
  | nil => rfl
  | cons c t ih =>
    rw [skipLine, if_neg fun hc => h (by simp [hc]), ih fun hmem => h (List.mem_cons_of_mem c hmem)]

/-- A line that is skipped shortens the text. -/
theorem length_skipLine {t fd : Text} (h : skipLine t = some fd) : fd.length < t.length := by
  induction t with
  | nil => cases h
  | cons c t ih =>
    rw [skipLine] at h
    split at h
    · cases h
      simp
    · exact Nat.lt_succ_of_lt (ih h)

/-! ## From line to line -/

/-- On a line the conversions go as far as the columns it has; if the record does not end there
they go on in the next line. -/
theorem skipLine_stopsAt (cs : List Column) :
    ∀ {l : Text}, '\n' ∉ l → ∀ r, skipLine (stopsAt cs (l ++ '\n' :: r)) =
      if lineColumns cs l = [] then some r else skipLine (stopsAt (lineColumns cs l) r) := by
  induction cs with
  | nil => exact fun hl r => skipLine_append hl r
  | cons c cs ih =>
    intro l hl r
    rw [stopsAt, lineColumns, Column.scan_line]
    by_cases hblank : skipSpace l = []
    · rw [if_pos hblank, (Column.scan_blank c l).mpr hblank]
      simp [stopsAt]
    · rw [if_neg hblank]
      cases hscan : c.scan l with
      | inputFailure => exact absurd ((Column.scan_blank c l).mp hscan) hblank
      | matchingFailure rest =>
        have hsuffix : rest <:+ l := Column.scan_suffix (by rw [hscan]; rfl)
        simp only [Conv.after, if_true]
        exact skipLine_append (fun hmem => hl (hsuffix.subset hmem)) r
      | assigned _ rest =>
        have hsuffix : rest <:+ l := Column.scan_suffix (by rw [hscan]; rfl)
        exact ih (fun hmem => hl (hsuffix.subset hmem)) r

/-- The columns left after a line. -/
theorem lineColumns_suffix (cs : List Column) : ∀ l, lineColumns cs l <:+ cs := by
  induction cs with
  | nil => exact fun l => List.suffix_rfl
  | cons c cs ih =>
    intro l
    rw [lineColumns]
    cases c.scan l with
    | assigned _ rest => exact (ih rest).trans (List.suffix_cons c cs)
    | inputFailure => exact List.suffix_rfl
    | matchingFailure rest => exact List.nil_suffix

/-- Only a blank line has no column. -/
theorem lineColumns_eq_self {cs : List Column} (hcs : cs ≠ []) {l : Text} :
    lineColumns cs l = cs ↔ skipSpace l = [] := by
  obtain ⟨c, cs, rfl⟩ := List.exists_cons_of_ne_nil hcs
  rw [lineColumns, ← Column.scan_blank c l]
  cases c.scan l with
  | assigned _ rest =>
    have hle := (lineColumns_suffix cs rest).length_le
    simp only [reduceCtorEq, iff_false]
    intro heq
    rw [heq, List.length_cons] at hle
    omega
  | inputFailure => simp
  | matchingFailure rest => simp

/-- From the middle of a record that still needs `cs`, or from its start, the reader comes to the
end of the file. -/
def GoesOn (bufs : Nat → StampT D) (cs : List Column) (t : Text) : Prop :=
  (cs = columns ∧ skipSpace t = []) ∨
  ∃ fd, skipLine (stopsAt cs t) = some fd ∧ ReplayEnds bufs fd

/-- A replay ends if the call that starts it does, and the one after it. -/
theorem replayEnds_iff (bufs : Nat → StampT D) (t : Text) :
    ReplayEnds bufs t ↔ GoesOn (fun i => bufs (i + 1)) columns t := by
  have hcases := asciistampGetNext_cases (bufs 0) t
  constructor
  · rintro (h | ⟨h, _, hrest⟩)
    · rcases hcases with ⟨hblank, _⟩ | ⟨_, _, hcall⟩ | ⟨s, fd, _, hcall⟩
      · exact .inl ⟨rfl, hblank⟩
      · cases hcall.symm.trans h
      · cases hcall.symm.trans h
    · rcases hcases with ⟨_, hcall⟩ | ⟨_, _, hcall⟩ | ⟨s, fd, hskip, hcall⟩
      · cases hcall.symm.trans h
      · cases hcall.symm.trans h
      · cases hcall.symm.trans h
        exact .inr ⟨_, hskip, hrest⟩
  · intro hgoes
    rcases hcases with ⟨_, hcall⟩ | ⟨hblank, hskip, _⟩ | ⟨s, fd, hskip, hcall⟩
    · exact .eof hcall
    · rcases hgoes with ⟨_, hblank'⟩ | ⟨fd, hskip', _⟩
      · exact absurd hblank' hblank
      · cases hskip.symm.trans hskip'
    · rcases hgoes with ⟨_, hblank⟩ | ⟨fd', hskip', hrest⟩
      · rw [columns, stopsAt, (Column.scan_blank _ t).mpr hblank] at hskip
        cases hskip
      · cases hskip.symm.trans hskip'
        refine .stamp hcall ?_ hrest
        exact Nat.lt_of_lt_of_le (length_skipLine hskip) (stopsAt_suffix columns t).length_le

/-- A line takes the reader on from the columns needed before it to those needed after it. -/
theorem goesOn_line (bufs : Nat → StampT D) {cs : List Column} (hcs : cs ≠ [])
    (hcols : cs <:+ columns) {l : Text} (hl : '\n' ∉ l) (t : Text) :
    GoesOn bufs cs (l ++ '\n' :: t) ↔
      if lineColumns cs l = [] then ReplayEnds bufs t else GoesOn bufs (lineColumns cs l) t := by
  have hblank : cs = columns ∧ skipSpace (l ++ '\n' :: t) = [] ↔
      lineColumns cs l = columns ∧ skipSpace t = [] := by
    rw [skipSpace_line]
    constructor
    · rintro ⟨rfl, hspace⟩
      split at hspace
      · rename_i hline
        exact ⟨(lineColumns_eq_self hcs).mpr hline, hspace⟩
      · simp at hspace
    · rintro ⟨hline, hspace⟩
      have heq : cs = columns := by
        refine hcols.eq_of_length (Nat.le_antisymm hcols.length_le ?_)
        rw [← hline]
        exact (lineColumns_suffix cs l).length_le
      rw [if_pos ((lineColumns_eq_self hcs).mp (hline.trans heq.symm))]
      exact ⟨heq, hspace⟩
  unfold GoesOn
  rw [hblank, skipLine_stopsAt cs hl t]
  by_cases hend : lineColumns cs l = []
  · rw [if_pos hend, if_pos hend, hend]
    simp [columns]
  · rw [if_neg hend, if_neg hend]

/-- Line by line, with the columns that the line before has left. -/
theorem goesOn_iff (ls : List Text) {last : Text} (hlast : '\n' ∉ last) :
    (∀ l ∈ ls, '\n' ∉ l) → ∀ (cs : List Column) (bufs : Nat → StampT D), cs ≠ [] →
      cs <:+ columns →
      (GoesOn bufs cs (joinLines ls last) ↔
        skipSpace last = [] ∧ ls.foldl recordLine cs = columns) := by
  induction ls with
  | nil =>
    intro _ cs bufs hcs _
    have hnone : skipLine (stopsAt cs last) = none :=
      skipLine_eq_none fun hmem => hlast ((stopsAt_suffix cs last).subset hmem)
    show GoesOn bufs cs last ↔ _
    simp [GoesOn, hnone, and_comm]
  | cons l ls ih =>
    intro hls cs bufs hcs hcols
    have htail := ih fun l' hl' => hls l' (List.mem_cons_of_mem l hl')
    rw [show joinLines (l :: ls) last = l ++ '\n' :: joinLines ls last from rfl,
      goesOn_line bufs hcs hcols (hls l List.mem_cons_self), List.foldl_cons, recordLine]
    by_cases hend : lineColumns cs l = []
    · rw [if_pos hend, if_pos hend, replayEnds_iff]
      exact htail columns _ (by decide) List.suffix_rfl
    · rw [if_neg hend, if_neg hend]
      exact htail _ bufs hend ((lineColumns_suffix cs l).trans hcols)

/-! ## The header -/

/-- A comment line is skipped. -/
theorem skipCommentblock_line {l : Text} (hl : '\n' ∉ l) (t : Text) :
    skipCommentblock '%' true (l ++ '\n' :: t) = skipCommentblock '%' false t := by
  induction l with
  | nil => rfl
  | cons c l ih =>
    have hc : c ≠ '\n' := fun h => hl (by simp [h])
    rw [List.cons_append, skipCommentblock, decide_eq_true hc]
    exact ih fun hmem => hl (List.mem_cons_of_mem c hmem)

/-- A comment without an end is skipped for ever. -/
theorem skipCommentblock_eq_none {l : Text} (hl : '\n' ∉ l) :
    skipCommentblock '%' true l = none := by
  induction l with
  | nil => rfl
  | cons c l ih =>
    have hc : c ≠ '\n' := fun h => hl (by simp [h])
    rw [skipCommentblock, decide_eq_true hc]
    exact ih fun hmem => hl (List.mem_cons_of_mem c hmem)

/-- The header ends unless it goes on to the end of a file without a last newline. -/
theorem openTimestamp_joinLines (ls : List Text) {last : Text} (hlast : '\n' ∉ last) :
    (∀ l ∈ ls, '\n' ∉ l) → openTimestamp (joinLines ls last) =
      if ls.dropWhile isComment = [] ∧ isComment last then none
      else some (joinLines (ls.dropWhile isComment) last) := by
  induction ls with
  | nil =>
    intro _
    show skipCommentblock '%' false last = _
    cases last with
    | nil => rfl
    | cons c last =>
      by_cases hc : c = '%'
      · rw [skipCommentblock, if_pos hc,
          skipCommentblock_eq_none fun hmem => hlast (List.mem_cons_of_mem c hmem)]
        simp [isComment, hc]
      · rw [skipCommentblock, if_neg hc]
        simp [isComment, hc, joinLines]
  | cons l ls ih =>
    intro hls
    have hl := hls l List.mem_cons_self
    show skipCommentblock '%' false (l ++ '\n' :: joinLines ls last) = _
    cases l with
    | nil => simp [skipCommentblock, isComment, joinLines]
    | cons c l =>
      by_cases hc : c = '%'
      · rw [List.cons_append, skipCommentblock, if_pos hc,
          skipCommentblock_line fun hmem => hl (List.mem_cons_of_mem c hmem)]
        have hcomment : isComment (c :: l) = true := by simp [isComment, hc]
        rw [List.dropWhile_cons_of_pos hcomment]
        exact ih fun l' hl' => hls l' (List.mem_cons_of_mem _ hl')
      · have hcomment : isComment (c :: l) = false := by simp [isComment, hc]
        rw [List.cons_append, skipCommentblock, if_neg hc,
          List.dropWhile_cons_of_neg (by simp [hcomment])]
        simp [joinLines]

/-! ## The result -/

/-- The reader comes to the end of a file exactly when the file ends between two records. -/
theorem replayTerminates_iff (bufs : Nat → StampT D) (file : Text) :
    ReplayTerminates bufs file ↔ EndsBetweenRecords file := by
  obtain ⟨hls, hlast⟩ : (∀ l ∈ (lines file).1, '\n' ∉ l) ∧ '\n' ∉ (lines file).2 :=
    newline_notMem_linesFrom file [] (by simp)
  have hfile : joinLines (lines file).1 (lines file).2 = file := joinLines_linesFrom file []
  have hdata : ∀ l ∈ (lines file).1.dropWhile isComment, '\n' ∉ l :=
    fun l hl => hls l ((List.dropWhile_suffix _).subset hl)
  have hopen := openTimestamp_joinLines (lines file).1 hlast hls
  rw [hfile] at hopen
  have hrun := goesOn_iff _ hlast hdata columns (fun i => bufs (i + 1)) (by decide) List.suffix_rfl
  rw [← replayEnds_iff] at hrun
  unfold ReplayTerminates EndsBetweenRecords neededAtEnd
  rw [hopen, ← hrun]
  by_cases hheader : (lines file).1.dropWhile isComment = [] ∧ isComment (lines file).2
  · -- The last line is a comment without an end: it is not blank either.
    rw [if_pos hheader]
    have hblank : skipSpace (lines file).2 ≠ [] := by
      obtain ⟨_, hcomment⟩ := hheader
      cases hlines : (lines file).2 with
      | nil =>
        rw [hlines] at hcomment
        cases hcomment
      | cons c t =>
        rw [hlines] at hcomment
        have hc : c = '%' := by simpa [isComment] using hcomment
        rw [hc, skipSpace_cons (by decide)]
        exact List.cons_ne_nil _ _
    constructor
    · rintro ⟨fd, hfd, _⟩
      cases hfd
    · intro hends
      exact absurd (hrun.mp hends).1 hblank
  · rw [if_neg hheader]
    constructor
    · rintro ⟨fd, hfd, hends⟩
      cases hfd
      exact hends
    · exact fun hends => ⟨_, rfl, hends⟩

/-- Six columns on the last line, or white space after it, and the reader ends. It also ends at a
column that a number only begins. -/
example : EndsBetweenRecords "% fields\n1 2.0 3.0 4 5 0\nx\n \n".toList ∧
    EndsBetweenRecords "1 infinf 4 5\n".toList := by decide

/-- A comment without a newline, as at the end of a header that was cut off, is never left. -/
theorem not_replayTerminates_comment :
    ¬ ReplayTerminates (fun _ => replayStamp 0) "% BEGIN_HEADER".toList := by
  rintro ⟨fd, hopen, _⟩
  cases hopen

end RADclock
