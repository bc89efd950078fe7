import RADclock.Config.Lines

/-!
# Reading one line (`extract_key_value`)

What a line says should depend on the line alone. The routine copies the key into a buffer that
still holds what earlier lines left there, does not terminate it, and then looks for a blank in
the buffer. So the key needs a blank after it, and the separator has to be there. From the value
it drops further separators, and the newline only if something else is left.

- `lineEntry`: what a line says.
- `Readable`: the lines that `extract_key_value` reads so.
- `extract_iff`: no others, whatever the buffer holds.
- `entries_readable`: the loop of `config_parse` over lines of this kind.
-/

namespace RADclock.ConfigMgr

open Lib

/-- A line as `fgets` leaves it in the line buffer. -/
structure ConfLine where
  text : Text
  isLine : IsLine text
  nul : '\x00' ∉ text
  short : text.length < MAXLINE

/-! ## What a line says -/

/-- Without the blanks around it. -/
def trim (t : Text) : Text := (t.dropWhile isBlank).rdropWhile isBlank

/-- The key and the value of a line, if it has a key. -/
def lineEntry (line : Text) : Option (Text × Text) :=
  if (line.dropWhile isBlank).head?.all (· = '#') ∨ '=' ∉ line then none
  else some (trim (line.takeWhile (· ≠ '=')),
    trim ((line.dropWhile (· ≠ '=')).tail.takeWhile (· ≠ '#')))

/-- What `extract_key_value` says, if it returns. -/
def Extracted.result : Extracted → Option (Option (Text × Text))
  | .skip => some none
  | .entry _ label value => some (some (label, value))
  | .fault => none

/-! ## Lines that are read -/

/-- What is before the separator: one word and a blank after it. -/
def WordAndBlank (before : Text) : Prop :=
  before.dropWhile (fun ch => !isBlank ch) ≠ [] ∧
  ∀ ch ∈ before.dropWhile (fun ch => !isBlank ch), isBlank ch = true

/-- What is after the separator: no second separator comes first, and if the line ends there, it
does so at once or without a newline. -/
def ValueKept (after : Text) : Prop :=
  (after.dropWhile isTab).head? ≠ some '=' ∧
  (after.dropWhile isTab = ['\n'] → after.takeWhile isTab = [])

instance (before : Text) : Decidable (WordAndBlank before) :=
  decidable_of_iff (before.dropWhile (fun ch => !isBlank ch) ≠ [] ∧
    (before.dropWhile (fun ch => !isBlank ch)).all isBlank = true)
    (and_congr_right fun _ => List.all_eq_true)

instance (after : Text) : Decidable (ValueKept after) := inferInstanceAs (Decidable (_ ∧ _))

/-- No key, or a key and a value that are found. -/
def Readable (line : Text) : Prop :=
  (line.dropWhile isTab).head?.all (fun ch => ch = '#' ∨ ch = '\n') = true ∨
  ('=' ∈ line.dropWhile isTab ∧ WordAndBlank ((line.dropWhile isTab).takeWhile (· ≠ '=')) ∧
    ValueKept ((line.dropWhile isTab).dropWhile (· ≠ '=')).tail)

instance (line : Text) : Decidable (Readable line) := inferInstanceAs (Decidable (_ ∨ _))

/-! ## Blanks -/

theorem isBlank_of_isTab {c : Char} (h : isTab c = true) : isBlank c = true := by
  simp only [isTab, isBlank, decide_eq_true_iff] at h ⊢
  tauto

theorem isBlank_iff (c : Char) : isBlank c = true ↔ isTab c = true ∨ c = '\n' := by
  simp only [isTab, isBlank, decide_eq_true_iff]
  tauto

theorem eq_ne_of_isTab {c : Char} (h : isTab c = true) : c ≠ '=' ∧ c ≠ '#' ∧ c ≠ '\n' := by
  simp only [isTab, decide_eq_true_iff] at h
  rcases h with rfl | rfl <;> decide

theorem trim_of_head {t : Text} (h : ∀ c ∈ t.head?, isBlank c = false) :
    trim t = t.rdropWhile isBlank := by
  unfold trim
  cases t with
  | nil => rfl
  | cons c t => rw [List.dropWhile_cons_of_neg (by simp [h c rfl])]

theorem trim_tabs {x : Text} (hx : ∀ c ∈ x, isTab c = true) (t : Text) :
    trim (x ++ t) = trim t := by
  unfold trim
  rw [List.dropWhile_append_of_pos fun c hc => isBlank_of_isTab (hx c hc)]

theorem isTab_takeWhile (t : Text) : ∀ c ∈ t.takeWhile isTab, isTab c = true :=
  fun _ hc => List.mem_takeWhile_imp hc

/-- A text of tabs and a text that starts with none. -/
theorem tabs_append (t : Text) : t.takeWhile isTab ++ t.dropWhile isTab = t :=
  List.takeWhile_append_dropWhile

/-! ## The value -/

theorem getLast?_separator {x : Text} (hx : ∀ c ∈ x, isTab c = true) :
    ('=' :: x).getLast? = some '=' ↔ x = [] := by
  rcases List.eq_nil_or_concat x with rfl | ⟨x', c, rfl⟩
  · simp
  · have hc := (eq_ne_of_isTab (hx c (by simp))).1
    rw [List.concat_eq_append, ← List.cons_append, List.getLast?_concat]
    simp [hc]

/-- The value from its first character on, after the separator and some tabs. -/
theorem extractValue_start {x u : Text} (hx : ∀ c ∈ x, isTab c = true)
    (hu : ∀ c ∈ u.head?, c ≠ '=' ∧ isTab c = false) :
    extractValue ('=' :: (x ++ u)) =
      if (u.takeWhile (· ≠ '#')).rdropWhile isBlank ≠ [] then
        (u.takeWhile (· ≠ '#')).rdropWhile isBlank
      else if x = [] then [] else u.takeWhile (· ≠ '#') := by
  have hpos : ∀ c ∈ '=' :: x, decide (c = '=' ∨ isTab c = true) = true := by
    intro c hc
    rcases List.mem_cons.mp hc with rfl | hc
    · rfl
    · simp [hx c hc]
  have hdrop : u.dropWhile (fun ch => decide (ch = '=' ∨ isTab ch = true)) = u := by
    cases u with
    | nil => rfl
    | cons d u => exact List.dropWhile_cons_of_neg (by simpa using hu d rfl)
  have htake : u.takeWhile (fun ch => decide (ch = '=' ∨ isTab ch = true)) = [] := by
    cases u with
    | nil => rfl
    | cons d u => exact List.takeWhile_cons_of_neg (by simpa using hu d rfl)
  unfold extractValue
  rw [← List.cons_append, List.dropWhile_append_of_pos hpos, List.takeWhile_append_of_pos hpos,
    hdrop, htake, List.append_nil]
  simp only [getLast?_separator hx]

/-- No separator is left at the start of a value. -/
theorem head?_extractValue (c : Text) : (extractValue c).head? ≠ some '=' := by
  have hhead := head?_dropWhile (fun ch => decide (ch = '=' ∨ isTab ch = true)) c
  unfold extractValue
  generalize c.dropWhile (fun ch => decide (ch = '=' ∨ isTab ch = true)) = rest at hhead ⊢
  have hne : ∀ v, v <+: rest → v.head? ≠ some '=' := by
    intro v hv heq
    have hv' : v ≠ [] := by
      rintro rfl
      cases heq
    have hsep := hhead '=' ((head?_of_initial hv hv').symm.trans heq)
    simp at hsep
  have hvalue : rest.takeWhile (· ≠ '#') <+: rest := List.takeWhile_prefix _
  simp only
  split_ifs
  · exact hne _ ((List.rdropWhile_prefix isBlank _).trans hvalue)
  · simp
  · exact hne _ hvalue

theorem rdropWhile_cons {c : Char} (h : isBlank c = false) (t : Text) :
    ∃ v, (c :: t).rdropWhile isBlank = c :: v := by
  have hne : (c :: t).rdropWhile isBlank ≠ [] := by
    rw [Ne, List.rdropWhile_eq_nil_iff]
    intro hall
    rw [hall c List.mem_cons_self] at h
    cases h
  obtain ⟨d, v, hv⟩ := List.exists_cons_of_ne_nil hne
  have hd := head?_of_initial (List.rdropWhile_prefix isBlank (c :: t)) hne
  rw [hv] at hd
  cases hd
  exact ⟨v, hv⟩

/-- The value is found exactly when nothing of it is a separator, and the end of the line is not
taken for it. -/
theorem extractValue_eq_trim_iff {after : Text} (hline : IsLine ('=' :: after)) :
    extractValue ('=' :: after) = trim (after.takeWhile (· ≠ '#')) ↔ ValueKept after := by
  have hx := isTab_takeWhile after
  have hhead := head?_dropWhile isTab after
  have hafter := tabs_append after
  revert hline
  unfold ValueKept
  generalize after.takeWhile isTab = x at hx hafter ⊢
  generalize after.dropWhile isTab = u at hhead hafter ⊢
  subst hafter
  intro hline
  have hcomment : (x ++ u).takeWhile (· ≠ '#') = x ++ u.takeWhile (· ≠ '#') :=
    List.takeWhile_append_of_pos fun c hc => by simpa using (eq_ne_of_isTab (hx c hc)).2.1
  rw [hcomment, trim_tabs hx]
  cases u with
  | nil =>
    rw [extractValue_start hx (by simp)]
    simp [trim]
  | cons d u =>
    have htab : isTab d = false := hhead d rfl
    by_cases hsep : d = '='
    · -- What the line says starts with the second separator.
      subst hsep
      obtain ⟨v, hv⟩ := rdropWhile_cons (c := '=') rfl (u.takeWhile (· ≠ '#'))
      rw [List.takeWhile_cons_of_pos (by rfl), trim_of_head (fun c hc => by cases hc; rfl), hv]
      simp only [List.head?_cons, ne_eq, not_true_eq_false, false_and, iff_false]
      intro heq
      exact head?_extractValue _ (by rw [heq]; rfl)
    · rw [extractValue_start hx fun c hc => by cases hc; exact ⟨hsep, htab⟩]
      simp only [List.head?_cons, ne_eq, Option.some.injEq, hsep, not_false_eq_true, true_and]
      by_cases hhash : d = '#'
      · subst hhash
        rw [List.takeWhile_cons_of_neg (by simp)]
        simp [trim]
      · rw [List.takeWhile_cons_of_pos (by simpa using hhash)]
        by_cases hnl : d = '\n'
        · -- The newline is the last character; it is the value unless the separator is before it.
          subst hnl
          have hu : u = [] := by
            cases u with
            | nil => rfl
            | cons e u =>
              refine absurd ?_ hline
              rw [show '=' :: (x ++ '\n' :: e :: u) = ('=' :: x ++ ['\n']) ++ e :: u by simp,
                List.dropLast_append_of_ne_nil (by simp)]
              simp
          subst hu
          rw [List.takeWhile_nil, show trim ['\n'] = [] from rfl,
            show List.rdropWhile isBlank ['\n'] = [] from rfl]
          simp
        · have hblank : isBlank d = false := by
            rw [Bool.eq_false_iff, ne_eq, isBlank_iff]
            simp [htab, hnl]
          obtain ⟨v, hv⟩ := rdropWhile_cons hblank (u.takeWhile (· ≠ '#'))
          rw [trim_of_head (t := d :: u.takeWhile (· ≠ '#')) (by simpa using hblank), hv]
          simp [hnl]

/-! ## The key -/

/-- After the tabs that a line starts with, only a newline is blank. -/
theorem dropWhile_isBlank {line : Text} (hline : IsLine line) :
    line.dropWhile isBlank =
      if (line.dropWhile isTab).head? = some '\n' then [] else line.dropWhile isTab := by
  have hx := isTab_takeWhile line
  have hhead := head?_dropWhile isTab line
  have happ := tabs_append line
  generalize line.takeWhile isTab = x at hx happ ⊢
  generalize line.dropWhile isTab = u at hhead happ ⊢
  subst happ
  rw [List.dropWhile_append_of_pos fun c hc => isBlank_of_isTab (hx c hc)]
  cases u with
  | nil => rfl
  | cons d u =>
    have htab : isTab d = false := hhead d rfl
    -- the line ends at its first newline
    by_cases hnl : d = '\n'
    · subst hnl
      have hu : u = [] := by
        cases u with
        | nil => rfl
        | cons e u =>
          refine absurd ?_ hline
          rw [show x ++ '\n' :: e :: u = (x ++ ['\n']) ++ e :: u by simp,
            List.dropLast_append_of_ne_nil (by simp)]
          simp
      subst hu
      rfl
    · have hblank : isBlank d = false := by
        rw [Bool.eq_false_iff, ne_eq, isBlank_iff]
        simp [htab, hnl]
      rw [List.dropWhile_cons_of_neg (by simp [hblank])]
      simp [hnl]

/-- The first word is all that is before the separator, if only blanks come after it. -/
theorem takeWhile_eq_trim_iff {before : Text} (hhead : ∀ c ∈ before.head?, isBlank c = false) :
    before.takeWhile (fun ch => !isBlank ch) = trim before ↔
      ∀ ch ∈ before.dropWhile (fun ch => !isBlank ch), isBlank ch = true := by
  -- the first word against the text without its trailing blanks
  have hword : ∀ c ∈ before.takeWhile (fun ch => !isBlank ch), isBlank c = false := fun c hc => by
    simpa using List.mem_takeWhile_imp hc
  have happ : before.takeWhile (fun ch => !isBlank ch) ++ before.dropWhile (fun ch => !isBlank ch) =
      before := List.takeWhile_append_dropWhile
  rw [trim_of_head hhead]
  constructor
  · intro heq ch hch
    have hrest : before.rdropWhile isBlank ++ before.rtakeWhile isBlank = before :=
      List.rdropWhile_append_rtakeWhile
    rw [← heq] at hrest
    have hgap := List.append_cancel_left (happ.trans hrest.symm)
    rw [hgap] at hch
    exact List.mem_rtakeWhile_imp hch
  · -- if all after the word is blank, trimming leaves the word
    intro hgap
    have hself : (before.takeWhile fun ch => !isBlank ch).rdropWhile isBlank =
        before.takeWhile fun ch => !isBlank ch := by
      rw [List.rdropWhile_eq_self_iff]
      intro hne
      simp [hword _ (List.getLast_mem hne)]
    have hdrop : ∀ (w g : Text), (∀ ch ∈ g, isBlank ch = true) →
        (w ++ g).rdropWhile isBlank = w.rdropWhile isBlank := by
      intro w g
      induction g using List.reverseRecOn with
      | nil => exact fun _ => by rw [List.append_nil]
      | append_singleton g c ih =>
        intro hg
        rw [← List.append_assoc, List.rdropWhile_concat_pos _ _ _ (hg c (by simp))]
        exact ih fun ch hch => hg ch (List.mem_append_left _ hch)
    have hbefore := hdrop (before.takeWhile fun ch => !isBlank ch) _ hgap
    rw [happ, hself] at hbefore
    exact hbefore.symm

theorem takeWhile_word {before : Text} (hgap : before.dropWhile (fun ch => !isBlank ch) ≠ [])
    (key : Text) : (before ++ key).takeWhile (fun ch => !isBlank ch) =
      before.takeWhile fun ch => !isBlank ch := by
  obtain ⟨c, g, hg⟩ := List.exists_cons_of_ne_nil hgap
  have hc := head?_dropWhile (fun ch => !isBlank ch) before c (by rw [hg]; rfl)
  have happ : before.takeWhile (fun ch => !isBlank ch) ++ before.dropWhile (fun ch => !isBlank ch) =
      before := List.takeWhile_append_dropWhile
  conv_lhs => rw [← happ, hg, List.append_assoc]
  exact takeWhile_append_of_neg (fun _ hd => List.mem_takeWhile_imp hd) hc _

theorem length_takeWhile_word {before : Text}
    (hgap : before.dropWhile (fun ch => !isBlank ch) ≠ []) :
    (before.takeWhile fun ch => !isBlank ch).length < before.length := by
  have hlen := congrArg List.length
    (List.takeWhile_append_dropWhile (p := fun ch => !isBlank ch) (l := before))
  have hpos := List.length_pos_iff.mpr hgap
  rw [List.length_append] at hlen
  omega

/-- A key without a blank after it runs on into what the buffer held. -/
theorem extractKeyValue_fault {line : Text}
    (hskip : (line.dropWhile isTab).head?.all (fun ch => ch = '#' ∨ ch = '\n') = false)
    (hsep : '=' ∈ line.dropWhile isTab)
    (hgap : ((line.dropWhile isTab).takeWhile (· ≠ '=')).dropWhile (fun ch => !isBlank ch) = []) :
    extractKeyValue (List.replicate MAXLINE 'x') line = .fault := by
  have hword := List.dropWhile_eq_nil_iff.mp hgap
  have hall : ∀ n, ((line.dropWhile isTab).takeWhile (· ≠ '=') ++
      (List.replicate MAXLINE 'x').drop n).takeWhile (fun ch => !isBlank ch) =
      (line.dropWhile isTab).takeWhile (· ≠ '=') ++ (List.replicate MAXLINE 'x').drop n := by
    intro n
    rw [List.takeWhile_eq_self_iff]
    intro c hc
    rcases List.mem_append.mp hc with hc | hc
    · exact hword c hc
    · rw [List.eq_of_mem_replicate (List.mem_of_mem_drop hc)]
      rfl
  unfold extractKeyValue
  simp only [hskip, hall]
  rw [if_neg (by decide), if_neg (by simpa using hsep), if_pos trivial]

/-- With a blank after it the key is the first word, whatever the buffer held. -/
theorem extractKeyValue_word {line : Text} (hnul : '\x00' ∉ line)
    (hskip : (line.dropWhile isTab).head?.all (fun ch => ch = '#' ∨ ch = '\n') = false)
    (hsep : '=' ∈ line.dropWhile isTab)
    (hgap : ((line.dropWhile isTab).takeWhile (· ≠ '=')).dropWhile (fun ch => !isBlank ch) ≠ [])
    (key : Text) :
    ∃ key', extractKeyValue key line =
      .entry key' (((line.dropWhile isTab).takeWhile (· ≠ '=')).takeWhile fun ch => !isBlank ch)
        (extractValue ((line.dropWhile isTab).dropWhile (· ≠ '='))) := by
  have hlen := length_takeWhile_word hgap
  have hword : ∀ c ∈ ((line.dropWhile isTab).takeWhile (· ≠ '=')).takeWhile (fun ch => !isBlank ch),
      c ≠ '\x00' := by
    rintro c hc rfl
    exact hnul ((List.dropWhile_suffix _).subset ((List.takeWhile_prefix _).subset
      ((List.takeWhile_prefix _).subset hc)))
  have hcstring : cstring (((line.dropWhile isTab).takeWhile (· ≠ '=')).takeWhile
      fun ch => !isBlank ch) = ((line.dropWhile isTab).takeWhile (· ≠ '=')).takeWhile
      fun ch => !isBlank ch :=
    List.takeWhile_eq_self_iff.mpr fun c hc => by simpa using hword c hc
  unfold extractKeyValue
  simp only [hskip, takeWhile_word hgap, hcstring]
  rw [if_neg (by decide), if_neg (by simpa using hsep), if_neg]
  · exact ⟨_, rfl⟩
  · rw [List.length_append]
    omega

/-! ## Lines -/

theorem IsLine.suffix {x line : Text} (h : IsLine line) (hx : x <:+ line) : IsLine x := by
  obtain ⟨y, rfl⟩ := hx
  intro hnl
  have hne : x ≠ [] := by
    rintro rfl
    cases hnl
  refine h ?_
  rw [List.dropLast_append_of_ne_nil hne]
  exact List.mem_append_right y hnl

/-- What the line says, from its first character that is not a tab on. -/
theorem lineEntry_tabs {line : Text} (hline : IsLine line)
    (hskip : (line.dropWhile isTab).head?.all (fun ch => ch = '#' ∨ ch = '\n') = false) :
    lineEntry line = if '=' ∈ line.dropWhile isTab then
      some (trim ((line.dropWhile isTab).takeWhile (· ≠ '=')),
        trim ((((line.dropWhile isTab).dropWhile (· ≠ '=')).tail).takeWhile (· ≠ '#')))
      else none := by
  have hblank := dropWhile_isBlank hline
  have hx := isTab_takeWhile line
  have happ := tabs_append line
  have hne : ∀ c ∈ line.takeWhile isTab, decide (c ≠ '=') = true :=
    fun c hc => by simpa using (eq_ne_of_isTab (hx c hc)).1
  unfold lineEntry
  rw [hblank]
  generalize line.takeWhile isTab = x at hx hne happ
  generalize line.dropWhile isTab = u at hskip hblank happ ⊢
  subst happ
  rw [List.takeWhile_append_of_pos hne, List.dropWhile_append_of_pos hne, trim_tabs hx]
  cases u with
  | nil => cases hskip
  | cons d u =>
    have hd : d ≠ '#' ∧ d ≠ '\n' := by simpa using hskip
    have hmem : '=' ∉ x := fun h => by simpa using hne '=' h
    simp only [List.head?_cons, Option.some.injEq, hd.2, if_false, Option.all_some,
      List.mem_append, hmem, false_or]
    by_cases hsep : '=' ∈ d :: u
    · rw [if_neg (by simp [hd.1, hsep]), if_pos hsep]
    · rw [if_pos (.inr hsep), if_neg hsep]

theorem lineEntry_skip {line : Text} (hline : IsLine line)
    (hskip : (line.dropWhile isTab).head?.all (fun ch => ch = '#' ∨ ch = '\n') = true) :
    lineEntry line = none := by
  unfold lineEntry
  rw [dropWhile_isBlank hline, if_pos]
  left
  split
  · rfl
  · rename_i hnl
    cases hu : line.dropWhile isTab with
    | nil => rfl
    | cons d u =>
      rw [hu] at hskip hnl
      simp only [List.head?_cons, Option.all_some, Option.some.injEq, decide_eq_true_iff]
        at hskip hnl ⊢
      tauto

theorem afterSeparator {u : Text} (hsep : '=' ∈ u) :
    ∃ after, u.dropWhile (· ≠ '=') = '=' :: after := by
  have hne : u.dropWhile (· ≠ '=') ≠ [] := by
    rw [Ne, List.dropWhile_eq_nil_iff]
    exact fun h => by simpa using h '=' hsep
  obtain ⟨c, after, hafter⟩ := List.exists_cons_of_ne_nil hne
  have hc := head?_dropWhile (fun c => decide (c ≠ '=')) u c (by rw [hafter]; rfl)
  have heq : c = '=' := by simpa using hc
  exact ⟨after, heq ▸ hafter⟩

theorem head?_beforeSeparator {line : Text}
    (hskip : (line.dropWhile isTab).head?.all (fun ch => ch = '#' ∨ ch = '\n') = false) :
    ∀ c ∈ ((line.dropWhile isTab).takeWhile (· ≠ '=')).head?, isBlank c = false := by
  intro c hc
  have hne : (line.dropWhile isTab).takeWhile (· ≠ '=') ≠ [] := by
    intro h
    rw [h] at hc
    cases hc
  rw [head?_of_initial (List.takeWhile_prefix _) hne] at hc
  have htab := head?_dropWhile isTab line c hc
  rw [Option.mem_def.mp hc] at hskip
  have hnl : c ≠ '\n' := by
    rintro rfl
    cases hskip
  rw [Bool.eq_false_iff, ne_eq, isBlank_iff]
  simp [htab, hnl]

/-- A line with a separator and a blank after its first word is read as that word and the value
found, and that is what it says if both are. -/
theorem result_iff {line : Text} (hline : IsLine line) (hnul : '\x00' ∉ line)
    (hskip : (line.dropWhile isTab).head?.all (fun ch => ch = '#' ∨ ch = '\n') = false)
    (hsep : '=' ∈ line.dropWhile isTab)
    (hgap : ((line.dropWhile isTab).takeWhile (· ≠ '=')).dropWhile (fun ch => !isBlank ch) ≠ [])
    (key : Text) : (extractKeyValue key line).result = some (lineEntry line) ↔
      WordAndBlank ((line.dropWhile isTab).takeWhile (· ≠ '=')) ∧
      ValueKept ((line.dropWhile isTab).dropWhile (· ≠ '=')).tail := by
  obtain ⟨after, hafter⟩ := afterSeparator hsep
  obtain ⟨key', hread⟩ := extractKeyValue_word hnul hskip hsep hgap key
  have hline' : IsLine ('=' :: after) :=
    hline.suffix (hafter ▸ (List.dropWhile_suffix _).trans (List.dropWhile_suffix _))
  have hkey := takeWhile_eq_trim_iff (head?_beforeSeparator hskip)
  have hvalue := extractValue_eq_trim_iff hline'
  rw [hread, lineEntry_tabs hline hskip, if_pos hsep, hafter, List.tail_cons, WordAndBlank, ← hkey,
    ← hvalue]
  simp only [Extracted.result, Option.some.injEq, Prod.mk.injEq, ne_eq, hgap, not_false_eq_true,
    true_and]

theorem extract_of_readable {line : Text} (hline : IsLine line) (hnul : '\x00' ∉ line)
    (h : Readable line) (key : Text) :
    (extractKeyValue key line).result = some (lineEntry line) := by
  cases hskip : (line.dropWhile isTab).head?.all fun ch => ch = '#' ∨ ch = '\n' with
  | true =>
    rw [lineEntry_skip hline hskip]
    unfold extractKeyValue
    simp only [hskip]
    rfl
  | false =>
    obtain ⟨hsep, hkey, hvalue⟩ := h.resolve_left (Bool.eq_false_iff.mp hskip)
    exact (result_iff hline hnul hskip hsep hkey.1 key).mpr ⟨hkey, hvalue⟩

/-- A line is read as what it says, whatever the buffer for the key holds, exactly if it has no
key, or a key that is one word with a blank after it and a value that is kept. -/
theorem extract_iff (line : ConfLine) :
    (∀ key : Text, key.length = MAXLINE →
      (extractKeyValue key line.text).result = some (lineEntry line.text)) ↔
    Readable line.text := by
  obtain ⟨line, hline, hnul, hshort⟩ := line
  constructor
  · intro h
    unfold Readable
    cases hskip : (line.dropWhile isTab).head?.all fun ch => ch = '#' ∨ ch = '\n' with
    | true => exact .inl rfl
    | false =>
      right
      have hsep : '=' ∈ line.dropWhile isTab := by
        by_contra hsep
        have hread := h blankKey (List.length_replicate ..)
        unfold extractKeyValue at hread
        simp only [hskip] at hread
        rw [if_neg (by decide), if_pos (by simpa using hsep)] at hread
        cases hread
      have hgap : ((line.dropWhile isTab).takeWhile (· ≠ '=')).dropWhile
          (fun ch => !isBlank ch) ≠ [] := by
        intro hgap
        have hread := h (List.replicate MAXLINE 'x') (List.length_replicate ..)
        rw [extractKeyValue_fault hskip hsep hgap] at hread
        cases hread
      exact ⟨hsep, (result_iff hline hnul hskip hsep hgap blankKey).mp
        (h blankKey (List.length_replicate ..))⟩
  · exact fun h key _ => extract_of_readable hline hnul h key

/-- An indented line with a comment, a value of two words, a setting without a value. -/
example : Readable "  hostname = a b # c\n".toList ∧ Readable "hostname\t=\n".toList := by
  decide

/-- What the buffer holds after the line `synchronization_type  = ntp`. -/
def usedKey : Text :=
  "synchronization_type".toList ++ '\x00' :: ' ' :: List.replicate (MAXLINE - 22) '\x00'

/-- Without a blank before the separator the key runs on into that of the earlier line. -/
theorem not_extract_key : ¬ ∀ (line : ConfLine) (key : Text), key.length = MAXLINE →
    (extractKeyValue key line.text).result = some (lineEntry line.text) := by
  intro h
  have hread := h ⟨"hostname=a\n".toList, by unfold IsLine; decide, by decide, by decide⟩ usedKey
    (by decide +kernel)
  revert hread
  decide +kernel

/-! ## The loop -/

theorem isLine_cstring {line : Text} (h : IsLine line) : IsLine (cstring line) :=
  h.initial (List.takeWhile_prefix _)

theorem nul_notMem_cstring (line : Text) : '\x00' ∉ cstring line :=
  fun h => by simpa using List.mem_takeWhile_imp h

/-- Lines that are all read give their entries in order, without those that have no value. -/
theorem entries_readable (lines : List Text) :
    (∀ line ∈ lines, IsLine line ∧ Readable (cstring line)) → ∀ key, entries key lines =
      (((lines.filterMap fun line => lineEntry (cstring line)).filter fun e => e.2 ≠ []).map
        fun e => (matchKey e.1, e.2), true) := by
  induction lines with
  | nil => exact fun _ key => rfl
  | cons line lines ih =>
    intro h key
    obtain ⟨hline, hreadable⟩ := h line List.mem_cons_self
    have htail := ih fun l hl => h l (List.mem_cons_of_mem line hl)
    have hread := extract_of_readable (isLine_cstring hline) (nul_notMem_cstring line) hreadable key
    rw [entries, List.filterMap_cons]
    cases hextract : extractKeyValue key (cstring line) with
    | fault =>
      rw [hextract] at hread
      cases hread
    | skip =>
      rw [hextract] at hread
      rw [← Option.some.inj hread]
      exact htail key
    | entry key' label value =>
      rw [hextract] at hread
      rw [← Option.some.inj hread]
      by_cases hv : value = []
      · simp [htail key', hv]
      · simp [htail key', hv]

end RADclock.ConfigMgr
