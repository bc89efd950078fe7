import RADclock.Config.Parse

/-!
# Reading written lines

What the parser makes of the lines that `write_config_file` writes. A value that the parser has
taken from a file is `Clean`: it can be written after `key = ` and is read back as it is, provided
that the line fits into the buffer of `fgets`.

- `Plain`, `Clean`: values as the parser leaves them.
- `clean_extractValue`: every value of a file is empty or clean.
- `entries_setting`: a setting that fits is read as its key and its value.
- `entries_items`: so is a list of comments, blank lines and settings.
-/

namespace RADclock.ConfigMgr

open Lib

/-! ## Values -/

/-- One word or more: no comment, no newline, and nothing at the ends that the parser drops. -/
structure Plain (v : Text) : Prop where
  newline : '\n' ∉ v
  comment : '#' ∉ v
  nul : '\x00' ∉ v
  head : ∀ c ∈ v.head?, c ≠ '=' ∧ isTab c = false
  last : ∀ c ∈ v.getLast?, isBlank c = false
  nonempty : v ≠ []

theorem plain_iff (v : Text) :
    Plain v ↔ '\n' ∉ v ∧ '#' ∉ v ∧ '\x00' ∉ v ∧
      v.head?.all (fun c => c ≠ '=' && !isTab c) = true ∧
      v.getLast?.all (fun c => !isBlank c) = true ∧ v ≠ [] := by
  constructor
  · rintro ⟨h₁, h₂, h₃, h₄, h₅, h₆⟩
    refine ⟨h₁, h₂, h₃, ?_, ?_, h₆⟩
    · cases hc : v.head? with
      | none => rfl
      | some c => simpa using h₄ c hc
    · cases hc : v.getLast? with
      | none => rfl
      | some c => simpa using h₅ c hc
  · rintro ⟨h₁, h₂, h₃, h₄, h₅, h₆⟩
    refine ⟨h₁, h₂, h₃, fun c hc => ?_, fun c hc => ?_, h₆⟩
    · rw [Option.mem_def.mp hc] at h₄
      simpa using h₄
    · rw [Option.mem_def.mp hc] at h₅
      simpa using h₅

instance (v : Text) : Decidable (Plain v) := decidable_of_iff _ (plain_iff v).symm

/-- A value of a file. That of a setting without a value is the end of its line. -/
def Clean (v : Text) : Prop := v = ['\n'] ∨ Plain v

/-! ## Values of a file are clean -/

/-- A line of `fgets`: a newline only at its end. -/
def IsLine (line : Text) : Prop := '\n' ∉ line.dropLast

theorem isLine_readLines (max : Nat) (t : Text) :
    ∀ cur, '\n' ∉ cur → ∀ line ∈ readLines max cur t, IsLine line := by
  induction t with
  | nil =>
    intro cur hcur line hline
    rw [readLines] at hline
    split at hline
    · cases hline
    · rw [List.mem_singleton.mp hline]
      exact fun h => hcur (List.mem_of_mem_dropLast h)
  | cons c t ih =>
    intro cur hcur line hline
    rw [readLines] at hline
    split at hline
    · rcases List.mem_cons.mp hline with rfl | hline
      · rw [IsLine, List.dropLast_concat]
        exact hcur
      · exact ih [] (by simp) line hline
    · rename_i hc
      refine ih (cur ++ [c]) ?_ line hline
      simp only [List.mem_append, List.mem_singleton, not_or]
      exact ⟨hcur, fun h => hc (.inl h.symm)⟩

theorem head?_dropWhile (p : Char → Bool) (t : Text) :
    ∀ c ∈ (t.dropWhile p).head?, p c = false := by
  intro c hc
  induction t with
  | nil => cases hc
  | cons d t ih =>
    rw [List.dropWhile_cons] at hc
    split at hc
    · exact ih hc
    · rename_i hd
      cases hc
      simpa using hd

theorem head?_of_initial {x y : Text} (h : x <+: y) (hx : x ≠ []) : x.head? = y.head? := by
  obtain ⟨z, rfl⟩ := h
  cases x with
  | nil => exact absurd rfl hx
  | cons c x => rfl

theorem clean_extractValue {c line : Text} (hline : IsLine line) (hnul : '\x00' ∉ line)
    (hsuf : c <:+ line) (hne : extractValue c ≠ []) : Clean (extractValue c) := by
  have hrest : (c.dropWhile fun ch => ch = '=' ∨ isTab ch) <:+ line :=
    (List.dropWhile_suffix _).trans hsuf
  have hhead := head?_dropWhile (fun ch => ch = '=' ∨ isTab ch) c
  revert hne
  unfold extractValue
  generalize c.dropWhile (fun ch => ch = '=' ∨ isTab ch) = rest at hrest hhead
  simp only
  have hvalue : rest.takeWhile (· ≠ '#') <+: rest := List.takeWhile_prefix _
  have hcomment : '#' ∉ rest.takeWhile (· ≠ '#') := fun h => by
    simpa using List.mem_takeWhile_imp h
  generalize rest.takeWhile (· ≠ '#') = value at hvalue hcomment
  have htrim := List.rdropWhile_prefix isBlank value
  obtain ⟨u, rfl⟩ := hrest
  split_ifs with htrimmed hskip
  · intro _
    refine .inr ⟨?_, fun h => hcomment (htrim.mem h), fun h => ?_, fun d hd => ?_, fun d hd => ?_,
      htrimmed⟩
    · intro hnl
      -- The newline is not the last character, which is not blank, so the line goes on after it.
      obtain ⟨z, hz⟩ := htrim.trans hvalue
      have hlast := List.rdropWhile_last_not isBlank value htrimmed
      rw [← List.dropLast_append_getLast htrimmed] at hnl hz
      rcases List.mem_append.mp hnl with hnl | hnl
      · apply hline
        rw [← hz]
        rw [List.dropLast_append_of_ne_nil (by simp)]
        refine List.mem_append_right _ ?_
        rw [List.append_assoc, List.dropLast_append_of_ne_nil (by simp)]
        exact List.mem_append_left _ hnl
      · rw [← List.mem_singleton.mp hnl] at hlast
        exact hlast rfl
    · exact hnul (List.mem_append_right _ (hvalue.mem (htrim.mem h)))
    · rw [head?_of_initial (htrim.trans hvalue) htrimmed] at hd
      simpa using hhead d hd
    · have hlast := List.rdropWhile_last_not isBlank value htrimmed
      rw [List.getLast?_eq_some_getLast htrimmed] at hd
      cases hd
      simpa using hlast
  · intro h
    exact absurd rfl h
  · intro hne
    left
    rw [not_not] at htrimmed
    have hblank : ∀ d ∈ value, isBlank d = true := List.rdropWhile_eq_nil_iff.mp htrimmed
    obtain ⟨d, t, rfl⟩ := List.exists_cons_of_ne_nil hne
    have hd : d = '\n' := by
      have h1 := hblank d (by simp)
      have h2 := hhead d (by rw [← head?_of_initial hvalue hne]; rfl)
      simp only [isBlank, isTab, decide_eq_true_iff, decide_eq_false_iff_not, not_or] at h1 h2
      tauto
    subst hd
    obtain ⟨z, rfl⟩ := hvalue
    cases t with
    | nil => rfl
    | cons e t =>
      refine absurd ?_ hline
      rw [List.dropLast_append_of_ne_nil (by simp)]
      exact List.mem_append_right _ (by simp)

theorem IsLine.initial {x line : Text} (h : IsLine line) (hx : x <+: line) : IsLine x := by
  obtain ⟨y, rfl⟩ := hx
  intro hnl
  refine h ?_
  cases y with
  | nil => rwa [List.append_nil]
  | cons d y =>
    rw [List.dropLast_append_of_ne_nil (by simp)]
    exact List.mem_append_left _ (List.mem_of_mem_dropLast hnl)

/-- Every value of a file is clean. -/
theorem clean_entries (lines : List Text) :
    ∀ key, (∀ line ∈ lines, IsLine line) → ∀ e ∈ (entries key lines).1, Clean e.2 := by
  -- on the lines; the key buffer carries over from one to the next
  induction lines with
  | nil =>
    intro key _ e he
    cases he
  | cons line lines ih =>
    intro key hlines e he
    have htail : ∀ l ∈ lines, IsLine l := fun l hl => hlines l (List.mem_cons_of_mem _ hl)
    have hfirst : IsLine (cstring line) :=
      (hlines line List.mem_cons_self).initial ( List.takeWhile_prefix _)
    have hnul : '\x00' ∉ cstring line := fun h => by simpa using List.mem_takeWhile_imp h
    rw [entries] at he
    cases hx : extractKeyValue key (cstring line) with
    | skip =>
      rw [hx] at he
      exact ih key htail e he
    | fault =>
      rw [hx] at he
      cases he
    | entry key' label value =>
      rw [hx] at he
      simp only at he
      split_ifs at he with hvalue
      · exact ih key' htail e he
      · rcases List.mem_cons.mp he with rfl | he
        · unfold extractKeyValue at hx
          simp only at hx
          split_ifs at hx
          injection hx with _ _ hx
          subst hx
          exact clean_extractValue hfirst hnul
            ((List.dropWhile_suffix _).trans (List.dropWhile_suffix _)) hvalue
        · exact ih key' htail e he

/-! ## Lines of a file -/

/-- A line with room for its newline. -/
theorem readLines_newline (max : Nat) (x t : Text) (hx : '\n' ∉ x) :
    ∀ cur, cur.length + x.length < max →
      readLines max cur (x ++ '\n' :: t) = (cur ++ x ++ ['\n']) :: readLines max [] t := by
  induction x with
  | nil =>
    intro cur _
    rw [List.nil_append, readLines, if_pos (.inl rfl), List.append_nil]
  | cons c x ih =>
    intro cur hlen
    simp only [List.mem_cons, not_or] at hx
    simp only [List.length_cons] at hlen
    have hgo : ¬ (c = '\n' ∨ (cur ++ [c]).length = max) := by
      rintro (h | h)
      · exact hx.1 h.symm
      · simp only [List.length_append, List.length_singleton] at h
        omega
    rw [List.cons_append, readLines, if_neg hgo, ih hx.2 (cur ++ [c])
      (by simp only [List.length_append, List.length_singleton]; omega)]
    simp

/-- A line cut at the end of the buffer. -/
theorem readLines_full (max : Nat) (x t : Text) (hx : '\n' ∉ x) (hne : x ≠ []) :
    ∀ cur, cur.length + x.length = max →
      readLines max cur (x ++ t) = (cur ++ x) :: readLines max [] t := by
  induction x with
  | nil => exact absurd rfl hne
  | cons c x ih =>
    intro cur hlen
    simp only [List.mem_cons, not_or] at hx
    simp only [List.length_cons] at hlen
    rw [List.cons_append, readLines]
    cases x with
    | nil => rw [if_pos (.inr (by simpa using hlen)), List.nil_append]
    | cons d x =>
      simp only [List.length_cons] at hlen
      have hgo : ¬ (c = '\n' ∨ (cur ++ [c]).length = max) := by
        rintro (h | h)
        · exact hx.1 h.symm
        · simp only [List.length_append, List.length_singleton] at h
          omega
      rw [if_neg hgo, ih hx.2 (by simp) (cur ++ [c])
        (by simp only [List.length_append, List.length_cons, List.length_nil]; omega)]
      simp

/-! ## Settings -/

/-- A label of the table of keys. -/
structure IsLabel (label : Text) : Prop where
  chars : ∀ c ∈ label, isBlank c = false ∧ c ≠ '=' ∧ c ≠ '#' ∧ c ≠ '\x00'
  nonempty : label ≠ []

theorem takeWhile_append_of_neg {p : Char → Bool} {x : Text} (hx : ∀ c ∈ x, p c = true) {d : Char}
    (hd : p d = false) (t : Text) : (x ++ d :: t).takeWhile p = x := by
  rw [List.takeWhile_append_of_pos hx]
  simp [hd]

theorem dropWhile_append_of_neg {p : Char → Bool} {x : Text} (hx : ∀ c ∈ x, p c = true) {d : Char}
    (hd : p d = false) (t : Text) : (x ++ d :: t).dropWhile p = d :: t := by
  rw [List.dropWhile_append_of_pos hx]
  simp [hd]

/-- The key and the value of a line `label = ..`. -/
theorem extractKeyValue_setting {label : Text} (hlabel : IsLabel label) (key w : Text) :
    ∃ key', extractKeyValue key (label ++ ' ' :: '=' :: ' ' :: w) =
      .entry key' label (extractValue ('=' :: ' ' :: w)) := by
  obtain ⟨c, label', rfl⟩ := List.exists_cons_of_ne_nil hlabel.nonempty
  obtain ⟨hblank, heq, hhash, _⟩ := hlabel.chars c (by simp)
  have htab : isTab c = false := by
    simp only [isBlank, isTab, decide_eq_false_iff_not, not_or] at hblank ⊢
    exact ⟨hblank.1, hblank.2.1⟩
  have hnl : c ≠ '\n' := by
    simp only [isBlank, decide_eq_false_iff_not, not_or] at hblank
    exact hblank.2.2
  have hdrop : ((c :: label') ++ ' ' :: '=' :: ' ' :: w).dropWhile isTab =
      (c :: label') ++ ' ' :: '=' :: ' ' :: w := by
    simp [htab]
  -- the key is all before the first equal sign, without its blank
  have hassoc : (c :: label') ++ ' ' :: '=' :: ' ' :: w =
      ((c :: label') ++ [' ']) ++ '=' :: ' ' :: w := by simp
  have hne : ∀ d ∈ (c :: label') ++ [' '], decide (d ≠ '=') = true := by
    intro d hd
    rcases List.mem_append.mp hd with hd | hd
    · simpa using (hlabel.chars d hd).2.1
    · rw [List.mem_singleton.mp hd]
      rfl
  have hbefore := takeWhile_append_of_neg (p := fun d => decide (d ≠ '=')) hne (d := '=') rfl
    (' ' :: w)
  have hafter := dropWhile_append_of_neg (p := fun d => decide (d ≠ '=')) hne (d := '=') rfl
    (' ' :: w)
  rw [← hassoc] at hbefore hafter
  have hkey : ∀ r : Text, (((c :: label') ++ [' ']) ++ r).takeWhile (fun ch => !isBlank ch) =
      c :: label' := by
    intro r
    rw [List.append_assoc]
    exact takeWhile_append_of_neg (fun d hd => by simp [(hlabel.chars d hd).1]) rfl r
  have hnul : cstring (c :: label') = c :: label' :=
    List.takeWhile_eq_self_iff.mpr fun d hd => by simpa using (hlabel.chars d hd).2.2.2
  have hskip : ((c :: label') ++ ' ' :: '=' :: ' ' :: w).head?.all
      (fun ch => decide (ch = '#' ∨ ch = '\n')) = false := by
    simp [hhash, hnl]
  unfold extractKeyValue
  simp only [hdrop, hskip, hbefore, hafter, hkey, hnul]
  rw [if_neg (by decide), if_neg (by simp), if_neg (by simp)]
  exact ⟨_, rfl⟩

/-- A value that starts with something else than a separator or a blank: what is left of it is what
is not blank at its end. -/
theorem extractValue_eq {w : Text} (hne : w ≠ []) (hcomment : '#' ∉ w)
    (hhead : ∀ c ∈ w.head?, c ≠ '=' ∧ isBlank c = false) :
    extractValue ('=' :: ' ' :: w) = w.rdropWhile isBlank := by
  obtain ⟨c, w', rfl⟩ := List.exists_cons_of_ne_nil hne
  obtain ⟨heq, hblank⟩ := hhead c rfl
  have hstop : decide (c = '=' ∨ isTab c = true) = false := by
    simp only [isBlank, decide_eq_false_iff_not, not_or] at hblank
    simp [isTab, heq, hblank.1, hblank.2.1]
  have hdrop : ('=' :: ' ' :: c :: w').dropWhile (fun ch => decide (ch = '=' ∨ isTab ch = true)) =
      c :: w' :=
        dropWhile_append_of_neg (x := ['=', ' ']) (List.all_eq_true.mp (by decide)) hstop w'
  have hall : (c :: w').takeWhile (fun ch => decide (ch ≠ '#')) = c :: w' := by
    refine List.takeWhile_eq_self_iff.mpr fun d hd => ?_
    rw [decide_eq_true_iff]
    rintro rfl
    exact hcomment hd
  have htrim : (c :: w').rdropWhile isBlank ≠ [] := by
    rw [Ne, List.rdropWhile_eq_nil_iff]
    intro h
    rw [h c (by simp)] at hblank
    cases hblank
  unfold extractValue
  simp only [hdrop, hall]
  rw [if_pos htrim]

theorem Plain.head_blank {v : Text} (hv : Plain v) : ∀ c ∈ v.head?, c ≠ '=' ∧ isBlank c =
    false := by
  intro c hc
  obtain ⟨heq, htab⟩ := hv.head c hc
  have hnl : c ≠ '\n' := fun h => hv.newline (h ▸ List.mem_of_mem_head? hc)
  simp only [isTab, decide_eq_false_iff_not, not_or] at htab
  simp [isBlank, heq, htab.1, htab.2, hnl]

/-- A plain value is read as it is, with or without the newline after it. -/
theorem extractValue_plain {v : Text} (hv : Plain v) (nl : Text) (hnl : nl = [] ∨ nl = ['\n']) :
    extractValue ('=' :: ' ' :: (v ++ nl)) = v := by
  have hlast : ¬ isBlank (v.getLast hv.nonempty) = true := by
    simp [hv.last _ (List.getLast?_eq_some_getLast hv.nonempty)]
  have hself : v.rdropWhile isBlank = v := List.rdropWhile_eq_self_iff.mpr fun _ => hlast
  have hcomment : '#' ∉ v ++ nl := by
    rcases hnl with rfl | rfl <;> simp [hv.comment]
  rw [extractValue_eq (by simp [hv.nonempty]) hcomment
    (by rw [List.head?_append_of_ne_nil _ hv.nonempty]; exact hv.head_blank)]
  rcases hnl with rfl | rfl
  · rw [List.append_nil, hself]
  · rw [List.rdropWhile_concat_pos _ _ _ (by decide), hself]

/-- A value that is cut in two loses something. -/
theorem extractValue_take {v : Text} (hv : Plain v) {n : Nat} (hpos : 0 < n) (hn : n < v.length) :
    extractValue ('=' :: ' ' :: v.take n) ≠ [] ∧ extractValue ('=' :: ' ' :: v.take n) ≠ v := by
  have hhead : (v.take n).head? = v.head? := by
    rw [List.head?_take, if_neg hpos.ne']
  have hne : v.take n ≠ [] := by
    simp [hpos.ne', hv.nonempty]
  rw [extractValue_eq hne (fun h => hv.comment (List.mem_of_mem_take h))
    (by rw [hhead]; exact hv.head_blank)]
  constructor
  · rw [Ne, List.rdropWhile_eq_nil_iff]
    intro h
    obtain ⟨c, hc⟩ := Option.ne_none_iff_exists'.mp (mt List.head?_eq_none_iff.mp hv.nonempty)
    have hblank := (hv.head_blank c hc).2
    rw [h c (List.mem_of_mem_head? (hhead ▸ hc))] at hblank
    cases hblank
  · intro h
    have hle := ( List.rdropWhile_prefix isBlank (v.take n)).length_le
    rw [h, List.length_take] at hle
    omega

/-! ## Items -/

/-- The line of an item can be read back: it fits into the buffer, possibly without its newline. -/
def Item.Fits : Item → Prop
  | .blank => True
  | .comment text => '\n' ∉ text ∧ text.length + 2 < MAXLINE
  | .setting label value => IsLabel label ∧ Clean value ∧ label.length + 3 + value.length < MAXLINE

/-- What the parser makes of it. -/
def Item.entry : Item → Option (Key × Text)
  | .blank => none
  | .comment _ => none
  | .setting label value => some (matchKey label, value)

/-- The lines of a text. -/
def linesOf (t : Text) : List Text := readLines (MAXLINE - 1) [] t

theorem entries_newline (key t : Text) :
    entries key (linesOf ('\n' :: t)) = entries key (linesOf t) := by
  rw [linesOf, readLines, if_pos (.inl rfl)]
  rfl

theorem entries_comment {text : Text} (h : (Item.comment text).Fits) (key t : Text) :
    entries key (linesOf ((Item.comment text).render ++ t)) = entries key (linesOf t) := by
  obtain ⟨hnl, hlen⟩ := h
  have hnl' : '\n' ∉ '#' :: text := by simp [hnl]
  have hrender : (Item.comment text).render ++ t = ('#' :: text) ++ '\n' :: t := by
    simp [Item.render]
  have hline := readLines_newline (MAXLINE - 1) ('#' :: text) t hnl' []
    (by simp only [List.length_nil, List.length_cons]; omega)
  rw [linesOf, hrender, hline]
  rfl

/-- A line `label = value`, with or without its newline. -/
theorem entries_line {label value : Text} (hlabel : IsLabel label) (hvalue : Clean value)
    (nl : Text) (hnl : nl = [] ∨ nl = ['\n']) (hplain : value = ['\n'] → nl = []) (key : Text)
    (lines : List Text) :
    ∃ key', entries key ((label ++ ' ' :: '=' :: ' ' :: (value ++ nl)) :: lines) =
      ((matchKey label, value) :: (entries key' lines).1, (entries key' lines).2) := by
  have hne : value ≠ [] := by
    rcases hvalue with rfl | hv
    · simp
    · exact hv.nonempty
  -- the value is read back whole
  have hread : extractValue ('=' :: ' ' :: (value ++ nl)) = value := by
    rcases hvalue with rfl | hv
    · rw [hplain rfl]
      rfl
    · exact extractValue_plain hv nl hnl
  -- and nothing in the line cuts it short
  have hnul : cstring (label ++ ' ' :: '=' :: ' ' :: (value ++ nl)) =
      label ++ ' ' :: '=' :: ' ' :: (value ++ nl) := by
    refine List.takeWhile_eq_self_iff.mpr fun d hd => ?_
    rw [decide_eq_true_iff]
    rintro rfl
    simp only [List.mem_append, List.mem_cons] at hd
    rcases hd with hd | hd | hd | hd | hd | hd
    · exact (hlabel.chars _ hd).2.2.2 rfl
    · cases hd
    · cases hd
    · cases hd
    · rcases hvalue with rfl | hv
      · simp at hd
      · exact hv.nul hd
    · rcases hnl with rfl | rfl <;> simp at hd
  obtain ⟨key', hkey⟩ := extractKeyValue_setting hlabel key (value ++ nl)
  refine ⟨key', ?_⟩
  rw [entries, hnul, hkey, hread]
  simp only [hne, if_false]

/-- A setting that fits is read as its key and its value. -/
theorem entries_setting {label value : Text} (h : (Item.setting label value).Fits)
    (key t : Text) :
    ∃ key', entries key (linesOf ((Item.setting label value).render ++ t)) =
      ((matchKey label, value) :: (entries key' (linesOf t)).1, (entries key' (linesOf t)).2) := by
  obtain ⟨hlabel, hvalue, hlen⟩ := h
  have hnl : '\n' ∉ label ++ ' ' :: '=' :: [' '] := by
    simp only [List.mem_append, List.mem_cons, List.not_mem_nil, or_false, not_or]
    refine ⟨fun hc => ?_, by decide, by decide, by decide⟩
    have := (hlabel.chars _ hc).1
    cases this
  have hmax : MAXLINE = 250 := rfl
  rcases hvalue with rfl | hv
  · -- The value is a newline, and ends the line; the newline after it is a line of its own.
    have hrender : (Item.setting label ['\n']).render ++ t =
        (label ++ ' ' :: '=' :: [' ']) ++ '\n' :: '\n' :: t := by
      simp [Item.render]
    have hline := readLines_newline (MAXLINE - 1) (label ++ ' ' :: '=' :: [' ']) ('\n' :: t)
      hnl [] (by simp at hlen ⊢; omega)
    obtain ⟨key', hkey⟩ := entries_line hlabel (.inl rfl) [] (.inl rfl) (fun _ => rfl) key
      (linesOf ('\n' :: t))
    refine ⟨key', ?_⟩
    rw [linesOf, hrender, hline, ← entries_newline key' t, ← hkey]
    simp [linesOf]
  · have hnl' : '\n' ∉ label ++ ' ' :: '=' :: ' ' :: value := by
      simp only [List.mem_append, List.mem_cons, List.not_mem_nil, or_false, not_or] at hnl ⊢
      exact ⟨hnl.1, hnl.2.1, hnl.2.2.1, hnl.2.2.2, hv.newline⟩
    have hrender : (Item.setting label value).render ++ t =
        (label ++ ' ' :: '=' :: ' ' :: value) ++ '\n' :: t := by
      simp [Item.render]
    have hnot : value = ['\n'] → ['\n'] = ([] : Text) := by
      rintro rfl
      exact absurd hv.newline (by simp)
    by_cases hroom : label.length + 3 + value.length + 1 < MAXLINE
    · have hline := readLines_newline (MAXLINE - 1) _ t hnl' []
        (by simp; omega)
      obtain ⟨key', hkey⟩ := entries_line hlabel (.inr hv) ['\n'] (.inr rfl) hnot key (linesOf t)
      refine ⟨key', ?_⟩
      rw [linesOf, hrender, hline, ← hkey]
      simp [linesOf]
    · -- The newline does not fit, and is read as a line of its own.
      have hline := readLines_full (MAXLINE - 1) _ ('\n' :: t) hnl' (by simp) []
        (by simp; omega)
      obtain ⟨key', hkey⟩ := entries_line hlabel (.inr hv) [] (.inl rfl) (fun _ => rfl) key
        (linesOf ('\n' :: t))
      refine ⟨key', ?_⟩
      rw [linesOf, hrender, hline, ← entries_newline key' t, ← hkey]
      simp [linesOf]

theorem entries_item {i : Item} (h : i.Fits) (key t : Text) :
    ∃ key', entries key (linesOf (i.render ++ t)) =
      (i.entry.toList ++ (entries key' (linesOf t)).1, (entries key' (linesOf t)).2) := by
  cases i with
  | blank => exact ⟨key, entries_newline key t⟩
  | comment text => exact ⟨key, entries_comment h key t⟩
  | setting label value => exact entries_setting h key t

/-- Items that fit are read as their keys and values. -/
theorem entries_items (items : List Item) :
    ∀ key t, (∀ i ∈ items, i.Fits) → ∃ key',
      entries key (linesOf (items.flatMap Item.render ++ t)) =
      (items.filterMap Item.entry ++ (entries key' (linesOf t)).1,
          (entries key' (linesOf t)).2) := by
  induction items with
  | nil => exact fun key t _ => ⟨key, rfl⟩
  | cons i items ih =>
    intro key t h
    obtain ⟨key₁, h₁⟩ := entries_item (h i (by simp)) key (items.flatMap Item.render ++ t)
    obtain ⟨key₂, h₂⟩ := ih key₁ t fun j hj => h j (List.mem_cons_of_mem _ hj)
    refine ⟨key₂, ?_⟩
    rw [List.flatMap_cons, List.append_assoc, h₁, h₂, List.filterMap_cons]
    cases i.entry <;> simp

/-! ## Lines that do not fit -/

/-- The characters of a printed number. -/
def isNumeral (c : Char) : Bool := c.isDigit || "+-.aefin".toList.contains c

theorem isNumeral_spec {c : Char} (h : isNumeral c = true) :
    isBlank c = false ∧ c ≠ '=' ∧ c ≠ '#' ∧ c ≠ '\x00' := by
  have hne : ∀ d : Char, isNumeral d = false → c ≠ d := by
    rintro d hd rfl
    rw [hd] at h
    cases h
  have hblank : isBlank c = false := by
    simp only [isBlank, decide_eq_false_iff_not, not_or]
    exact ⟨hne _ (by decide), hne _ (by decide), hne _ (by decide)⟩
  exact ⟨hblank, hne _ (by decide), hne _ (by decide), hne _ (by decide)⟩

theorem plain_of_isNumeral {v : Text} (hv : ∀ c ∈ v, isNumeral c = true) (hne : v ≠ []) :
    Plain v where
  newline h := absurd (isNumeral_spec (hv _ h)).1 (by decide)
  comment h := (isNumeral_spec (hv _ h)).2.2.1 rfl
  nul h := (isNumeral_spec (hv _ h)).2.2.2 rfl
  head c hc := by
    obtain ⟨hblank, heq, _⟩ := isNumeral_spec (hv c (List.mem_of_mem_head? hc))
    simp only [isBlank, decide_eq_false_iff_not, not_or] at hblank
    simp [isTab, heq, hblank.1, hblank.2.1]
  last c hc := (isNumeral_spec (hv c (List.mem_of_getLast? hc))).1
  nonempty := hne

/-- The first line of a text without newlines that a newline follows. -/
theorem linesOf_cons {r : Text} (hnl : '\n' ∉ r) (hne : r ≠ []) (t : Text) :
    ∃ x lines, linesOf (r ++ '\n' :: t) = x :: lines ∧ x.head? = r.head? ∧
      ∀ c ∈ x, c ∈ r ∨ c = '\n' := by
  by_cases hlen : r.length < MAXLINE - 1
  · refine ⟨r ++ ['\n'], linesOf t, ?_, List.head?_append_of_ne_nil _ hne, ?_⟩
    · simpa [linesOf] using readLines_newline (MAXLINE - 1) r t hnl [] (by simpa using hlen)
    · intro c hc
      simpa using hc
  · have hpos : MAXLINE - 1 ≠ 0 := by decide
    have hsplit : r ++ '\n' :: t = r.take (MAXLINE - 1) ++ (r.drop (MAXLINE - 1) ++ '\n' :: t) := by
      rw [← List.append_assoc, List.take_append_drop]
    refine ⟨r.take (MAXLINE - 1), linesOf (r.drop (MAXLINE - 1) ++ '\n' :: t), ?_, ?_, ?_⟩
    · rw [hsplit]
      simpa [linesOf] using readLines_full (MAXLINE - 1) (r.take (MAXLINE - 1)) _
        (fun h => hnl (List.mem_of_mem_take h)) (by simp [hpos, hne]) []
        (by simp only [List.length_nil, List.length_take]; omega)
    · rw [List.head?_take, if_neg hpos]
    · exact fun c hc => .inl (List.mem_of_mem_take hc)

/-- A setting that does not fit is cut: another value is read, and the rest is a line of its own. -/
theorem entries_cut {label value : Text} (hlabel : IsLabel label) (hshort : label.length < 200)
    (hv : Plain value) (hlen : ¬ label.length + 3 + value.length < MAXLINE) (key t : Text) :
    ∃ key' v' r, v' ≠ [] ∧ v' ≠ value ∧ r ≠ [] ∧ r <:+ value ∧
      entries key (linesOf ((Item.setting label value).render ++ t)) =
        ((matchKey label, v') :: (entries key' (linesOf (r ++ '\n' :: t))).1,
          (entries key' (linesOf (r ++ '\n' :: t))).2) := by
  have hmax : MAXLINE = 250 := rfl
  let n := MAXLINE - 4 - label.length
  have hn : n < value.length := by
    simp only [n]
    omega
  have hpos : 0 < n := by
    simp only [n]
    omega
  -- a line of 250 characters or more is read in two pieces
  obtain ⟨hne, hne'⟩ := extractValue_take hv hpos hn
  have hnl : '\n' ∉ label ++ ' ' :: '=' :: ' ' :: value.take n := by
    simp only [List.mem_append, List.mem_cons, not_or]
    refine ⟨fun hc => ?_, by decide, by decide, by decide, fun h =>
      hv.newline (List.mem_of_mem_take h)⟩
    have := (hlabel.chars _ hc).1
    cases this
  have hrender : (Item.setting label value).render ++ t =
      (label ++ ' ' :: '=' :: ' ' :: value.take n) ++ (value.drop n ++ '\n' :: t) := by
    simp only [Item.render, List.append_assoc]
    simp only [List.cons_append, ← List.append_assoc (value.take n), List.take_append_drop]
    rfl
  -- the first piece is an entry with the value cut
  have hline := readLines_full (MAXLINE - 1) (label ++ ' ' :: '=' :: ' ' :: value.take n)
    (value.drop n ++ '\n' :: t) hnl (by simp) []
    (by simp only [List.length_nil, List.length_append, List.length_cons, List.length_take,
        n]; omega)
  have hnul : cstring (label ++ ' ' :: '=' :: ' ' :: value.take n) =
      label ++ ' ' :: '=' :: ' ' :: value.take n := by
    refine List.takeWhile_eq_self_iff.mpr fun d hd => ?_
    rw [decide_eq_true_iff]
    rintro rfl
    simp only [List.mem_append, List.mem_cons] at hd
    rcases hd with hd | hd | hd | hd | hd
    · exact (hlabel.chars _ hd).2.2.2 rfl
    · cases hd
    · cases hd
    · cases hd
    · exact hv.nul (List.mem_of_mem_take hd)
  obtain ⟨key', hkey⟩ := extractKeyValue_setting hlabel key (value.take n)
  refine ⟨key', _, value.drop n, hne, hne', by simpa using hn, List.drop_suffix _ _, ?_⟩
  rw [linesOf, hrender, hline, List.nil_append, entries, hnul, hkey]
  simp only [hne, if_false]
  rfl

/-- The rest of a number that was cut is not a line the parser can read. -/
theorem entries_numeral {r : Text} (hr : ∀ c ∈ r, isNumeral c = true) (hne : r ≠ [])
    (key t : Text) : (entries key (linesOf (r ++ '\n' :: t))).2 = false := by
  have hnl : '\n' ∉ r := fun h => absurd (isNumeral_spec (hr _ h)).1 (by decide)
  obtain ⟨x, lines, hlines, hhead, hmem⟩ := linesOf_cons hnl hne t
  obtain ⟨c, r', rfl⟩ := List.exists_cons_of_ne_nil hne
  obtain ⟨hblank, heq, hhash, _⟩ := isNumeral_spec (hr c (by simp))
  have hnul : cstring x = x := by
    refine List.takeWhile_eq_self_iff.mpr fun d hd => ?_
    rw [decide_eq_true_iff]
    rcases hmem d hd with hd | rfl
    · exact (isNumeral_spec (hr d hd)).2.2.2
    · decide
  -- a rest of digits has no equal sign
  have hsep : '=' ∉ x := by
    intro h
    rcases hmem _ h with h | h
    · exact (isNumeral_spec (hr _ h)).2.1 rfl
    · cases h
  cases x with
  | nil => cases hhead
  | cons d x =>
    cases hhead
    have htab : isTab c = false := by
      simp only [isBlank, isTab, decide_eq_false_iff_not, not_or] at hblank ⊢
      exact ⟨hblank.1, hblank.2.1⟩
    have hnewline : c ≠ '\n' := by
      simp only [isBlank, decide_eq_false_iff_not, not_or] at hblank
      exact hblank.2.2
    have hdrop : (c :: x).dropWhile isTab = c :: x := by simp [htab]
    -- which is where the search for one faults
    have hfault : extractKeyValue key (c :: x) = .fault := by
      unfold extractKeyValue
      simp only [hdrop]
      rw [if_neg (by simp [hhash, hnewline]), if_pos hsep]
    rw [hlines, entries, hnul, hfault]

end RADclock.ConfigMgr
