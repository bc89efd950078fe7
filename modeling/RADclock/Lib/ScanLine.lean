import RADclock.Lib.Scan

/-!
# Conversions and the ends of lines

A conversion of `scanf` skips white space and then takes characters that are none. So a newline
ends what it takes, unless only white space comes before it; then the conversion goes on in the
next line.

- `Conv.after`: the same end, with more text behind it.
- `scanInteger_line`, `scanLongDouble_line`: a conversion at the start of a line.
-/

namespace Lib

/-- The end of a conversion when there is a newline and `r` behind the line it is made on. -/
def Conv.after {α : Type} (r : Text) : Conv α → Conv α
  | .assigned a rest => .assigned a (rest ++ '\n' :: r)
  | .inputFailure => .inputFailure
  | .matchingFailure rest => .matchingFailure (rest ++ '\n' :: r)

section Lines

variable (l r : Text)

/-- What is taken before the end of the line. -/
theorem takeWhile_line {p : Char → Bool} (hp : p '\n' = false) :
    (l ++ '\n' :: r).takeWhile p = l.takeWhile p := by
  induction l with
  | nil => simp [hp]
  | cons c l ih =>
    rw [List.cons_append, List.takeWhile_cons, List.takeWhile_cons, ih]

/-- What is dropped before the end of the line. -/
theorem dropWhile_line {p : Char → Bool} (hp : p '\n' = false) :
    (l ++ '\n' :: r).dropWhile p = l.dropWhile p ++ '\n' :: r := by
  induction l with
  | nil => simp [hp]
  | cons c l ih =>
    rw [List.cons_append, List.dropWhile_cons, List.dropWhile_cons, ih]
    split <;> rfl

/-- A conversion may skip the end of a line, if nothing else is left of it. -/
theorem skipSpace_line :
    skipSpace (l ++ '\n' :: r) =
      if skipSpace l = [] then skipSpace r else skipSpace l ++ '\n' :: r := by
  have hnewline : skipSpace ('\n' :: r) = skipSpace r := rfl
  unfold skipSpace at hnewline ⊢
  rw [List.dropWhile_append, hnewline]
  simp only [List.isEmpty_iff]

/-- A sign is read from the line it starts in. -/
theorem scanSign_line :
    scanSign (l ++ '\n' :: r) = ((scanSign l).1, (scanSign l).2 ++ '\n' :: r) := by
  cases l with
  | nil => rfl
  | cons c l =>
    -- a sign is taken from the line, anything else is left
    by_cases hminus : c = '-'
    · subst hminus
      rfl
    · by_cases hplus : c = '+'
      · subst hplus
        rfl
      · have hsign : ∀ t, scanSign (c :: t) = (false, c :: t) := by
          intro t
          unfold scanSign
          split <;> simp_all
        rw [List.cons_append, hsign, hsign]
        rfl

/-- An integer is read from its line, or from the next one if the line is blank. -/
theorem scanInteger_line :
    scanInteger (l ++ '\n' :: r) =
      if skipSpace l = [] then scanInteger r else (scanInteger l).after r := by
  unfold scanInteger
  rw [skipSpace_line]
  by_cases hblank : skipSpace l = []
  · rw [if_pos hblank, if_pos hblank]
  · rw [if_neg hblank, if_neg hblank]
    -- the first character that is not blank is in the line, so the item is
    obtain ⟨c, t, ht⟩ := List.exists_cons_of_ne_nil hblank
    have hsign := scanSign_line (c :: t) r
    simp only [ht, List.cons_append] at hsign ⊢
    rw [hsign]
    simp only
    rw [takeWhile_line _ r (by decide), dropWhile_line _ r (by decide)]
    split <;> rfl

/-- A fraction does not run over the end of the line. -/
theorem scanFraction_line {digit : Char → Bool} (hd : digit '\n' = false) :
    scanFraction digit (l ++ '\n' :: r) =
      ((scanFraction digit l).1, (scanFraction digit l).2 ++ '\n' :: r) := by
  cases l with
  | nil => rfl
  | cons c l =>
    by_cases hpoint : c = '.'
    · subst hpoint
      simp only [List.cons_append, scanFraction, takeWhile_line _ _ hd, dropWhile_line _ _ hd]
    · have hnone : ∀ t, scanFraction digit (c :: t) = ([], c :: t) := by
        intro t
        unfold scanFraction
        split <;> simp_all
      rw [List.cons_append, hnone, hnone]
      rfl

/-- A word without a newline starts the line or nothing. -/
theorem startsWith_line {word : Text} (hword : '\n' ∉ word) :
    startsWith word (l ++ '\n' :: r) = startsWith word l := by
  unfold startsWith
  rcases Nat.lt_or_ge l.length word.length with hlt | hge
  · -- a word that is longer than the line would need the newline
    have hshort : (l.take word.length).map Char.toLower ≠ word := by
      intro h
      have hlen := congrArg List.length h
      simp only [List.length_map, List.length_take] at hlen
      omega
    have hmem : ((l ++ '\n' :: r).take word.length).map Char.toLower ≠ word := by
      intro h
      refine hword (h ▸ List.mem_map.mpr ⟨'\n', ?_, rfl⟩)
      refine List.mem_take_iff_getElem.mpr ⟨l.length, ?_, ?_⟩
      · simp only [List.length_append, List.length_cons]
        omega
      · simp
    rw [decide_eq_false hshort, decide_eq_false hmem]
  · rw [List.take_append_of_le_length hge]

/-- A word is no longer than a text that starts with it. -/
theorem length_of_startsWith {word t : Text} (h : startsWith word t = true) :
    word.length ≤ t.length := by
  have hlen := congrArg List.length (of_decide_eq_true h)
  simp only [List.length_map, List.length_take] at hlen
  omega

/-- After a word of the line the rest of the line is left. -/
theorem drop_line {word : Text} (h : startsWith word l = true) {n : Nat} (hn : n = word.length) :
    (l ++ '\n' :: r).drop n = l.drop n ++ '\n' :: r :=
  List.drop_append_of_le_length (hn ▸ length_of_startsWith h)

/-- A word without a newline is not matched beyond the line. -/
theorem scanWord_line {word : Text} (hword : '\n' ∉ word) :
    scanWord word (l ++ '\n' :: r) =
      ((scanWord word l).1, (scanWord word l).2 ++ '\n' :: r) := by
  induction word generalizing l with
  | nil => rfl
  | cons w ws ih =>
    -- at the newline the word stops matching, as at the end of the text
    have hne : '\n' ≠ w := fun hw => hword (hw ▸ List.mem_cons_self)
    cases l with
    | nil => exact if_neg hne
    | cons c l =>
      rw [List.cons_append, scanWord, scanWord]
      split
      · exact ih l fun hmem => hword (List.mem_cons_of_mem w hmem)
      · rfl

/-- An exponent does not run over the end of the line. -/
theorem exponentItem_line {letter : Char → Bool} (hl : letter '\n' = false) :
    exponentItem letter (l ++ '\n' :: r) =
      ((exponentItem letter l).1, (exponentItem letter l).2 ++ '\n' :: r) := by
  cases l with
  | nil => simp [exponentItem, hl]
  | cons c l =>
    simp only [List.cons_append, exponentItem, scanSign_line,
      takeWhile_line _ r (show Char.isDigit '\n' = false by decide),
      dropWhile_line _ r (show Char.isDigit '\n' = false by decide)]
    split <;> rfl

/-- Nor does a number with its fraction and its exponent. -/
theorem digitsItem_line {digit letter : Char → Bool} (hd : digit '\n' = false)
    (hl : letter '\n' = false) :
    digitsItem digit letter (l ++ '\n' :: r) =
      ((digitsItem digit letter l).1, (digitsItem digit letter l).2 ++ '\n' :: r) := by
  simp only [digitsItem, takeWhile_line _ _ hd, dropWhile_line _ _ hd, scanFraction_line _ _ hd,
    exponentItem_line _ _ hl]
  split <;> rfl

/-- Nor `inf` and `infinity`, complete or not. -/
theorem infinityItem_line (neg : Bool) :
    infinityItem neg (l ++ '\n' :: r) =
      ((infinityItem neg l).1, (infinityItem neg l).2 ++ '\n' :: r) := by
  unfold infinityItem
  rw [scanWord_line _ _ (by decide)]
  obtain ⟨whole, rest⟩ := scanWord ['i', 'n', 'f'] l
  cases whole with
  | false => rfl
  | true =>
    dsimp only
    -- after the whole of `inf` the longer word may go on
    rw [startsWith_line _ _ (by decide), scanWord_line _ _ (by decide)]
    split <;> rfl

/-- Nor `nan`. -/
theorem nanItem_line : nanItem (l ++ '\n' :: r) = ((nanItem l).1, (nanItem l).2 ++ '\n' :: r) := by
  unfold nanItem
  rw [scanWord_line _ _ (by decide)]
  obtain ⟨whole, rest⟩ := scanWord ['n', 'a', 'n'] l
  cases whole with
  | false => rfl
  | true =>
    dsimp only
    rw [startsWith_line _ _ (by decide)]
    -- a parenthesis after `nan` belongs to it, if it is closed in the line
    by_cases hopen : startsWith ['('] rest = true
    · rw [if_pos hopen, if_pos hopen, drop_line (n := 1) _ _ hopen rfl,
        dropWhile_line _ _ (by decide), startsWith_line _ _ (by decide)]
      by_cases hclose : startsWith [')'] ((rest.drop 1).dropWhile isNChar) = true
      · rw [if_pos hclose, if_pos hclose, drop_line (n := 1) _ _ hclose rfl]
      · rw [if_neg hclose, if_neg hclose]
    · rw [if_neg hopen, if_neg hopen]

/-- So no input item of `%Lf` runs over the end of the line. -/
theorem numberItem_line (neg : Bool) :
    numberItem neg (l ++ '\n' :: r) =
      ((numberItem neg l).1, (numberItem neg l).2 ++ '\n' :: r) := by
  unfold numberItem
  rw [startsWith_line _ _ (by decide), startsWith_line _ _ (by decide),
    startsWith_line _ _ (by decide), infinityItem_line, nanItem_line,
    digitsItem_line _ _ (by decide) (by decide)]
  split
  · rfl
  split
  · rfl
  split
  · next hhex =>
    rw [drop_line (n := 2) l r hhex rfl, digitsItem_line _ _ (by decide) (by decide)]
  · rfl

/-- A number is read from its line, or from the next one if the line is blank. -/
theorem scanLongDouble_line :
    scanLongDouble (l ++ '\n' :: r) =
      if skipSpace l = [] then scanLongDouble r else (scanLongDouble l).after r := by
  unfold scanLongDouble
  rw [skipSpace_line]
  by_cases hblank : skipSpace l = []
  · rw [if_pos hblank, if_pos hblank]
  · rw [if_neg hblank, if_neg hblank]
    -- the first character that is not blank is in the line, so the item is
    obtain ⟨c, t, ht⟩ := List.exists_cons_of_ne_nil hblank
    have hsign := scanSign_line (c :: t) r
    simp only [ht, List.cons_append] at hsign ⊢
    rw [hsign]
    simp only
    rw [numberItem_line]
    obtain ⟨x, rest⟩ := numberItem (scanSign (c :: t)).1 (scanSign (c :: t)).2
    cases x with
    | none => rfl
    | some x => rfl

end Lines

/-! ## What is left is the end of the text -/

/-- Where a conversion stops, unless the text ended before it. -/
def Conv.rest? {α : Type} : Conv α → Option Text
  | .assigned _ rest => some rest
  | .inputFailure => none
  | .matchingFailure rest => some rest

/-- The rest after a sign. -/
theorem scanSign_suffix (t : Text) : (scanSign t).2 <:+ t := by
  unfold scanSign
  split
  · exact List.suffix_cons _ _
  · exact List.suffix_cons _ _
  · exact List.suffix_rfl

/-- The rest after an integer, whether one was read or not. -/
theorem scanInteger_suffix {t rest : Text} (h : (scanInteger t).rest? = some rest) :
    rest <:+ t := by
  unfold scanInteger at h
  have hskip : skipSpace t <:+ t := List.dropWhile_suffix _
  split at h
  · cases h
  · rename_i c t' heq
    -- blanks, a sign, digits: each is dropped from the front
    have hsign := scanSign_suffix (c :: t')
    rw [heq] at hskip
    simp only at h
    split at h
    · cases h
      exact hsign.trans hskip
    · cases h
      exact (List.dropWhile_suffix _).trans (hsign.trans hskip)

/-- The rest after a fraction. -/
theorem scanFraction_suffix (digit : Char → Bool) (t : Text) : (scanFraction digit t).2 <:+ t := by
  unfold scanFraction
  split
  · exact (List.dropWhile_suffix _).trans (List.suffix_cons _ _)
  · exact List.suffix_rfl

/-- The rest after a word, or the part of it that matches. -/
theorem scanWord_suffix (word : Text) : ∀ t, (scanWord word t).2 <:+ t := by
  induction word with
  | nil => exact fun t => List.suffix_rfl
  | cons w ws ih =>
    intro t
    cases t with
    | nil => exact List.suffix_rfl
    | cons c t =>
      rw [scanWord]
      split
      · exact (ih t).trans (List.suffix_cons c t)
      · exact List.suffix_rfl

/-- The rest after an exponent. -/
theorem exponentItem_suffix (letter : Char → Bool) (t : Text) :
    (exponentItem letter t).2 <:+ t := by
  unfold exponentItem
  split
  · exact List.suffix_rfl
  · split
    · exact (List.dropWhile_suffix _).trans ((scanSign_suffix _).trans (List.suffix_cons _ _))
    · exact List.suffix_rfl

/-- The rest after a number with its fraction and its exponent. -/
theorem digitsItem_suffix (digit letter : Char → Bool) (t : Text) :
    (digitsItem digit letter t).2 <:+ t := by
  have hfrac : (scanFraction digit (t.dropWhile digit)).2 <:+ t :=
    (scanFraction_suffix _ _).trans (List.dropWhile_suffix _)
  unfold digitsItem
  dsimp only
  split
  · exact hfrac
  · exact (exponentItem_suffix _ _).trans hfrac

/-- The rest after `inf` or `infinity`. -/
theorem infinityItem_suffix (neg : Bool) (t : Text) : (infinityItem neg t).2 <:+ t := by
  have hword := scanWord_suffix ['i', 'n', 'f'] t
  unfold infinityItem
  split
  · next heq => rwa [heq] at hword
  · next heq =>
    rw [heq] at hword
    split
    · exact (scanWord_suffix _ _).trans hword
    · exact hword

/-- The rest after `nan`. -/
theorem nanItem_suffix (t : Text) : (nanItem t).2 <:+ t := by
  have hword := scanWord_suffix ['n', 'a', 'n'] t
  unfold nanItem
  split
  · next heq => rwa [heq] at hword
  · next heq =>
    rw [heq] at hword
    split
    · -- the parentheses
      have hinner := ((List.dropWhile_suffix isNChar).trans (List.drop_suffix 1 _)).trans hword
      dsimp only
      split
      · exact (List.drop_suffix _ _).trans hinner
      · exact hinner
    · exact hword

/-- The rest after an input item. -/
theorem numberItem_suffix (neg : Bool) (t : Text) : (numberItem neg t).2 <:+ t := by
  unfold numberItem
  split
  · exact infinityItem_suffix neg t
  split
  · exact nanItem_suffix t
  split
  · exact (digitsItem_suffix _ _ _).trans (List.drop_suffix _ _)
  · exact digitsItem_suffix _ _ _

/-- The rest after a conversion is the end of the text it started with. -/
theorem scanLongDouble_suffix {t rest : Text} (h : (scanLongDouble t).rest? = some rest) :
    rest <:+ t := by
  unfold scanLongDouble at h
  have hskip : skipSpace t <:+ t := List.dropWhile_suffix _
  split at h
  · cases h
  · rename_i c t' heq
    have hsign := scanSign_suffix (c :: t')
    rw [heq] at hskip
    have hitem := (numberItem_suffix (scanSign (c :: t')).1 (scanSign (c :: t')).2).trans
      (hsign.trans hskip)
    dsimp only at h
    split at h
    · next hnum =>
      cases h
      rwa [hnum] at hitem
    · next hnum =>
      cases h
      rwa [hnum] at hitem

end Lib
