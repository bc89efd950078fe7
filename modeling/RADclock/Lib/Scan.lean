import Mathlib.Data.Nat.Digits.Defs

/-!
# Formatted text, written and read back

What `fprintf` writes and `fscanf`, `strtol` and `strtod` read, on texts. The conversions
that a program uses on both sides:

- `%llu` and `%d`: `printUnsigned`, `printInt`, read by `scanUnsigned` and `scanInt`.
- `%.kf`: `printFixed`, read by `scanLongDouble` into a `Number`, the value the text denotes before
  it is rounded to a machine format.
- `strtod`: `scanNumber`, which takes the longest text that is a number. A conversion of `fscanf`
  takes the longest text that is a number or the beginning of one, and fails if it is no number.

A conversion of `fscanf` ends in one of three ways (`Conv`): it assigns a value, the input is at
its end (*input failure*), or what is there does not match (*matching failure*). The round trips
are stated with the rest of the input still there: a conversion stops where the text it should
read stops.
-/

namespace Lib

abbrev Text := List Char

/-! ## Output -/

/-- `%llu`. -/
def printUnsigned (n : Nat) : Text := Nat.toDigits 10 n

/-- The sign of a conversion. -/
def printSign (neg : Bool) : Text := if neg then ['-'] else []

/-- `%d`. -/
def printInt (n : Int) : Text := printSign (decide (n < 0)) ++ printUnsigned n.natAbs

/-- `n` in at least `k` digits. -/
def printPadded (k n : Nat) : Text :=
  List.replicate (k - (printUnsigned n).length) '0' ++ printUnsigned n

/-- `%.kf` of a number whose magnitude rounds to `n / 10 ^ k`. -/
def printFixed (k : Nat) (neg : Bool) (n : Nat) : Text :=
  printSign neg ++ printUnsigned (n / 10 ^ k) ++ '.' :: printPadded k (n % 10 ^ k)

/-! ## Input -/

/-- `isspace`, in the C locale. -/
def isSpace (c : Char) : Bool := c = ' ' ∨ ('\t' ≤ c ∧ c ≤ '\r')

def skipSpace (t : Text) : Text := t.dropWhile isSpace

/-- An optional sign. -/
def scanSign : Text → Bool × Text
  | '-' :: t => (true, t)
  | '+' :: t => (false, t)
  | t => (false, t)

/-- How a conversion ends. -/
inductive Conv (α : Type) where
  | assigned (a : α) (rest : Text)
  | inputFailure
  | matchingFailure (rest : Text)
deriving DecidableEq

/-- An optionally signed decimal integer, after white space. -/
def scanInteger (t : Text) : Conv (Bool × Nat) :=
  match skipSpace t with
  | [] => .inputFailure
  | c :: t' =>
    let (neg, u) := scanSign (c :: t')
    if u.takeWhile Char.isDigit = [] then .matchingFailure u
    else .assigned (neg, Nat.ofDigitChars 10 (u.takeWhile Char.isDigit) 0)
      (u.dropWhile Char.isDigit)

def Conv.map {α β : Type} (f : α → β) : Conv α → Conv β
  | .assigned a rest => .assigned (f a) rest
  | .inputFailure => .inputFailure
  | .matchingFailure rest => .matchingFailure rest

/-- `strtoull`: what does not fit is `ULLONG_MAX`, and a minus sign negates modulo `2 ^ 64`. -/
def toUnsigned (neg : Bool) (n : Nat) : UInt64 :=
  if 2 ^ 64 ≤ n then UInt64.ofNat (2 ^ 64 - 1)
  else if neg then -UInt64.ofNat n
  else UInt64.ofNat n

/-- `(int) strtol`: clamped to `long`, then truncated to 32 bits. -/
def toInt (neg : Bool) (n : Nat) : Int32 :=
  if neg then Int32.ofInt (-(min n (2 ^ 63) : Nat)) else Int32.ofInt (min n (2 ^ 63 - 1) : Nat)

/-- `%llu`. -/
def scanUnsigned (t : Text) : Conv UInt64 := (scanInteger t).map fun p => toUnsigned p.1 p.2

/-- `%d`. -/
def scanInt (t : Text) : Conv Int32 := (scanInteger t).map fun p => toInt p.1 p.2

/-- What the text of a floating-point number denotes. -/
inductive Number where
  /-- `± m * 10 ^ e` -/
  | decimal (neg : Bool) (m : Nat) (e : Int)
  /-- `± m * 2 ^ e`, of the hexadecimal form -/
  | binary (neg : Bool) (m : Nat) (e : Int)
  | infinity (neg : Bool)
  | nan
deriving DecidableEq, Repr

/-- The fractional digits, after an optional point. -/
def scanFraction (digit : Char → Bool) : Text → Text × Text
  | '.' :: t => (t.takeWhile digit, t.dropWhile digit)
  | t => ([], t)

/-- The exponent, after the letter that starts it; without digits it is not one. -/
def scanExponent (letter : Char → Bool) (t : Text) : Int × Text :=
  match t with
  | [] => (0, [])
  | c :: t' =>
    let (neg, u) := scanSign t'
    let ds := u.takeWhile Char.isDigit
    if letter c = false ∨ ds = [] then (0, t)
    else ((if neg then -1 else 1) * (Nat.ofDigitChars 10 ds 0 : Int), u.dropWhile Char.isDigit)

def isHexDigit (c : Char) : Bool := c.isDigit ∨ ('a' ≤ c.toLower ∧ c.toLower ≤ 'f')

def hexValue (c : Char) : Nat :=
  if c.isDigit then c.toNat - '0'.toNat else c.toLower.toNat - 'a'.toNat + 10

/-- `word` at the start of `t`, in either case. -/
def startsWith (word : Text) (t : Text) : Bool := (t.take word.length).map Char.toLower = word

/-- The digits of a number, with the exponent they and the exponent part make. -/
def scanDigits (digit : Char → Bool) (letter : Char → Bool) (t : Text) :
    Option (Text × Nat × Int × Text) :=
  let whole := t.takeWhile digit
  let (frac, u) := scanFraction digit (t.dropWhile digit)
  if whole ++ frac = [] then none
  else
    let (e, rest) := scanExponent letter u
    some (whole ++ frac, frac.length, e, rest)

/-- `strtod` without the rounding: the longest text that is a number, from its first
character on. -/
def scanUnsignedNumber (neg : Bool) (t : Text) : Option (Number × Text) :=
  if startsWith ['i', 'n', 'f'] t then
    if startsWith ['i', 'n', 'f', 'i', 'n', 'i', 't', 'y'] t then some (.infinity neg, t.drop 8)
    else some (.infinity neg, t.drop 3)
  else if startsWith ['n', 'a', 'n'] t then some (.nan, t.drop 3)
  else
    let hex := if startsWith ['0', 'x'] t then
      scanDigits isHexDigit (fun c => c.toLower = 'p') (t.drop 2) else none
    match hex with
    | some (ds, frac, e, rest) =>
      some (.binary neg (ds.foldl (fun n c => 16 * n + hexValue c) 0) (e - 4 * frac), rest)
    | none =>
      (scanDigits Char.isDigit (fun c => c.toLower = 'e') t).map fun (ds, frac, e, rest) =>
        (.decimal neg (Nat.ofDigitChars 10 ds 0) (e - frac), rest)

/-- A number after white space. -/
def scanNumber (t : Text) : Conv Number :=
  match skipSpace t with
  | [] => .inputFailure
  | c :: t' =>
    let (neg, u) := scanSign (c :: t')
    match scanUnsignedNumber neg u with
    | none => .matchingFailure u
    | some (x, rest) => .assigned x rest

/-! ### Input items -/

/-- As much of a word as `t` starts with, in either case: whether that is all of it, and the
rest. -/
def scanWord : Text → Text → Bool × Text
  | [], t => (true, t)
  | _ :: _, [] => (false, [])
  | w :: ws, c :: t => if c.toLower = w then scanWord ws t else (false, c :: t)

/-- An exponent, or its letter and a sign, which begin one. -/
def exponentItem (letter : Char → Bool) (t : Text) : Option Int × Text :=
  match t with
  | [] => (some 0, [])
  | c :: t' =>
    if letter c then
      let (neg, u) := scanSign t'
      let ds := u.takeWhile Char.isDigit
      (if ds = [] then none else some ((if neg then -1 else 1) * (Nat.ofDigitChars 10 ds 0 : Int)),
        u.dropWhile Char.isDigit)
    else (some 0, t)

/-- The digits of a number, or a point, which begins them. -/
def digitsItem (digit : Char → Bool) (letter : Char → Bool) (t : Text) :
    Option (Text × Nat × Int) × Text :=
  let whole := t.takeWhile digit
  let (frac, u) := scanFraction digit (t.dropWhile digit)
  if whole ++ frac = [] then (none, u)
  else
    let (e, rest) := exponentItem letter u
    (e.map fun e => (whole ++ frac, frac.length, e), rest)

/-- `inf` or `infinity`. What is more than the one and less than the other is neither. -/
def infinityItem (neg : Bool) (t : Text) : Option Number × Text :=
  match scanWord ['i', 'n', 'f'] t with
  | (false, rest) => (none, rest)
  | (true, rest) =>
    if startsWith ['i'] rest then
      let (whole, rest') := scanWord ['i', 'n', 'i', 't', 'y'] rest
      (if whole then some (.infinity neg) else none, rest')
    else (some (.infinity neg), rest)

/-- What may stand in the parentheses of a `nan`. -/
def isNChar (c : Char) : Bool := c.isAlphanum ∨ c = '_'

/-- `nan` or `nan(..)`. -/
def nanItem (t : Text) : Option Number × Text :=
  match scanWord ['n', 'a', 'n'] t with
  | (false, rest) => (none, rest)
  | (true, rest) =>
    if startsWith ['('] rest then
      let inner := (rest.drop 1).dropWhile isNChar
      if startsWith [')'] inner then (some .nan, inner.drop 1) else (none, inner)
    else (some .nan, rest)

/-- The longest text that is a number or the beginning of one: the number, and the rest. -/
def numberItem (neg : Bool) (t : Text) : Option Number × Text :=
  if startsWith ['i'] t then infinityItem neg t
  else if startsWith ['n'] t then nanItem t
  else if startsWith ['0', 'x'] t then
    let (p, rest) := digitsItem isHexDigit (fun c => c.toLower = 'p') (t.drop 2)
    (p.map fun (ds, frac, e) =>
      .binary neg (ds.foldl (fun n c => 16 * n + hexValue c) 0) (e - 4 * frac), rest)
  else
    let (p, rest) := digitsItem Char.isDigit (fun c => c.toLower = 'e') t
    (p.map fun (ds, frac, e) => .decimal neg (Nat.ofDigitChars 10 ds 0) (e - frac), rest)

/-- `%Lf`: an input item after white space, if it is a number. -/
def scanLongDouble (t : Text) : Conv Number :=
  match skipSpace t with
  | [] => .inputFailure
  | c :: t' =>
    let (neg, u) := scanSign (c :: t')
    match numberItem neg u with
    | (none, rest) => .matchingFailure rest
    | (some x, rest) => .assigned x rest

/-! ## Round trips -/

/-- Nothing that could belong to a number follows. -/
def Delimited (r : Text) : Prop := ∀ c ∈ r.head?, isSpace c = true

/-- The end of a text ends a number. -/
theorem delimited_nil : Delimited [] := by simp [Delimited]

/-- So does white space. -/
theorem delimited_cons {c : Char} {t : Text} (h : isSpace c = true) : Delimited (c :: t) := by
  simpa [Delimited] using h

/-- White space is no digit. -/
theorem not_isDigit_of_isSpace {c : Char} (h : isSpace c = true) : c.isDigit = false := by
  rw [isSpace, decide_eq_true_iff] at h
  rcases h with rfl | ⟨_, h⟩
  · rfl
  · have hle : c.val ≤ '\r'.val := h
    have hlow : ¬ '0'.val ≤ c.val := fun h0 => absurd (UInt32.le_trans h0 hle) (by decide)
    simpa [Char.isDigit] using fun h0 => absurd h0 hlow

/-- A digit is no white space. -/
theorem not_isSpace_of_isDigit {c : Char} (h : c.isDigit = true) : isSpace c = false := by
  cases hs : isSpace c with
  | false => rfl
  | true => rw [not_isDigit_of_isSpace hs] at h; cases h

/-- Printed numbers have digits only. -/
theorem isDigit_of_mem_printUnsigned {n : Nat} {c : Char} (h : c ∈ printUnsigned n) :
    c.isDigit = true := Nat.isDigit_of_mem_toDigits (by decide) (by decide) h

/-- And one at least. -/
theorem printUnsigned_ne_nil (n : Nat) : printUnsigned n ≠ [] := Nat.toDigits_ne_nil

/-- No digit follows the end of a number. -/
theorem takeWhile_isDigit_of_delimited {r : Text} (h : Delimited r) :
    r.takeWhile Char.isDigit = [] := by
  cases r with
  | nil => rfl
  | cons c t => simp [not_isDigit_of_isSpace (h c (by simp))]

/-- So nothing is dropped there. -/
theorem dropWhile_isDigit_of_delimited {r : Text} (h : Delimited r) :
    r.dropWhile Char.isDigit = r := by
  cases r with
  | nil => rfl
  | cons c t => simp [not_isDigit_of_isSpace (h c (by simp))]

/-- Nothing is skipped before a character that is no space. -/
theorem skipSpace_cons {c : Char} (h : isSpace c = false) (t : Text) :
    skipSpace (c :: t) = c :: t := by simp [skipSpace, h]

/-- A first digit is not a sign. -/
theorem scanSign_digit {c : Char} (h : c.isDigit = true) (t : Text) :
    scanSign (c :: t) = (false, c :: t) := by
  unfold scanSign
  split
  · rename_i heq; cases heq; cases h
  · rename_i heq; cases heq; cases h
  · rfl

/-- What `printSign` writes before a digit is read as that sign, without skipping anything. -/
theorem scanSign_printSign (neg : Bool) {c : Char} (h : c.isDigit = true) (t : Text) :
    ∃ d u, skipSpace (printSign neg ++ c :: t) = d :: u ∧
      scanSign (d :: u) = (neg, c :: t) := by
  cases neg with
  | false => exact ⟨c, t, skipSpace_cons (not_isSpace_of_isDigit h) t, scanSign_digit h t⟩
  | true => exact ⟨'-', c :: t, skipSpace_cons (by decide) _, rfl⟩

/-- A printed integer is read back, up to its end. -/
theorem scanInteger_print (neg : Bool) (n : Nat) {r : Text} (hr : Delimited r) :
    scanInteger (printSign neg ++ printUnsigned n ++ r) = .assigned (neg, n) r := by
  obtain ⟨c, ds, hds⟩ := List.exists_cons_of_ne_nil (printUnsigned_ne_nil n)
  have hdig : ∀ d ∈ c :: ds, d.isDigit = true :=
    hds ▸ fun _ => isDigit_of_mem_printUnsigned
  obtain ⟨d, u, hskip, hsign⟩ := scanSign_printSign neg (hdig c (by simp)) (ds ++ r)
  have htext : printSign neg ++ printUnsigned n ++ r = printSign neg ++ c :: (ds ++ r) := by
    rw [hds, List.append_assoc, List.cons_append]
  have htake : (c :: (ds ++ r)).takeWhile Char.isDigit = c :: ds := by
    rw [← List.cons_append, List.takeWhile_append_of_pos hdig,
      takeWhile_isDigit_of_delimited hr, List.append_nil]
  have hdrop : (c :: (ds ++ r)).dropWhile Char.isDigit = r := by
    rw [← List.cons_append, List.dropWhile_append_of_pos hdig,
      dropWhile_isDigit_of_delimited hr]
  have hval : Nat.ofDigitChars 10 (c :: ds) 0 = n := by
    rw [← hds]
    exact Nat.ofDigitChars_ten_toDigits
  rw [htext]
  unfold scanInteger
  rw [hskip]
  simp only [hsign, htake, hdrop, hval]
  simp

/-- So is an unsigned word. -/
theorem scanUnsigned_print (n : UInt64) {r : Text} (hr : Delimited r) :
    scanUnsigned (printUnsigned n.toNat ++ r) = .assigned n r := by
  have h := scanInteger_print false n.toNat hr
  have hlt : ¬ 2 ^ 64 ≤ n.toNat := Nat.not_le.mpr n.toNat_lt
  simp only [printSign, Bool.false_eq_true, if_false, List.nil_append] at h
  rw [scanUnsigned, h, Conv.map, toUnsigned, if_neg hlt]
  simp

/-- An integer from its sign and its digits. -/
theorem toInt_print (n : Int32) :
    toInt (decide (n.toInt < 0)) n.toInt.natAbs = n := by
  have hle := n.le_toInt
  have hlt := n.toInt_lt
  unfold toInt
  by_cases h : n.toInt < 0
  · rw [if_pos (by simpa using h), min_eq_left (by omega), Int.ofNat_natAbs_of_nonpos (by omega),
      Int.neg_neg, Int32.ofInt_toInt]
  · rw [if_neg (by simpa using h), min_eq_left (by omega), Int.natAbs_of_nonneg (by omega),
      Int32.ofInt_toInt]

/-- So is an integer of 32 bits. -/
theorem scanInt_print (n : Int32) {r : Text} (hr : Delimited r) :
    scanInt (printInt n.toInt ++ r) = .assigned n r := by
  rw [scanInt, printInt, scanInteger_print _ _ hr, Conv.map, toInt_print]

/-- White space before a conversion does not matter. -/
theorem scanUnsigned_space (t : Text) : scanUnsigned (' ' :: t) = scanUnsigned t := rfl

/-- A blank before an integer is skipped. -/
theorem scanInt_space (t : Text) : scanInt (' ' :: t) = scanInt t := rfl

/-- A blank before a number is skipped. -/
theorem scanLongDouble_space (t : Text) : scanLongDouble (' ' :: t) = scanLongDouble t := rfl

/-- Padded numbers have digits only. -/
theorem isDigit_of_mem_printPadded {k n : Nat} {c : Char} (h : c ∈ printPadded k n) :
    c.isDigit = true := by
  rcases List.mem_append.mp h with h | h
  · rw [(List.mem_replicate.mp h).2]
    rfl
  · exact isDigit_of_mem_printUnsigned h

/-- And as many as asked for. -/
theorem length_printPadded {k n : Nat} (hk : 0 < k) (h : n < 10 ^ k) :
    (printPadded k n).length = k := by
  have hle : (printUnsigned n).length ≤ k := (Nat.length_toDigits_le_iff (by decide) hk).mpr h
  rw [printPadded, List.length_append, List.length_replicate]
  omega

/-- The digits on both sides of the point are those of the rounded number. -/
theorem ofDigitChars_fixed (k n : Nat) (hk : 0 < k) :
    Nat.ofDigitChars 10 (printUnsigned (n / 10 ^ k) ++ printPadded k (n % 10 ^ k)) 0 = n := by
  have hlt : n % 10 ^ k < 10 ^ k := Nat.mod_lt _ (by positivity)
  have hpad : Nat.ofDigitChars 10 (printPadded k (n % 10 ^ k)) 0 = n % 10 ^ k := by
    rw [printPadded, Nat.ofDigitChars_append, Nat.ofDigitChars_replicate_zero, Nat.mul_zero]
    exact Nat.ofDigitChars_ten_toDigits
  have hwhole : Nat.ofDigitChars 10 (printUnsigned (n / 10 ^ k)) 0 = n / 10 ^ k :=
    Nat.ofDigitChars_ten_toDigits
  rw [Nat.ofDigitChars_append, Nat.ofDigitChars_eq_ofDigitChars_zero, hwhole, hpad,
    length_printPadded hk hlt]
  exact Nat.div_add_mod n (10 ^ k)

/-- Only letters have another lower case. -/
theorem toLower_of_lt {c : Char} (h : c < 'A') : c.toLower = c := by
  have hupper : ¬ (c.val ≥ 'A'.val ∧ c.val ≤ 'Z'.val) := fun hA =>
    absurd h (UInt32.not_lt.mpr hA.1)
  unfold Char.toLower
  rw [dif_neg hupper]

/-- Digits come before letters. -/
theorem lt_of_isDigit {c : Char} (h : c.isDigit = true) : c < 'A' := by
  simp only [Char.isDigit, Bool.and_eq_true, decide_eq_true_iff] at h
  exact UInt32.lt_of_le_of_lt h.2 (by decide)

/-- So does white space. -/
theorem lt_of_isSpace {c : Char} (h : isSpace c = true) : c < 'A' := by
  rw [isSpace, decide_eq_true_iff] at h
  rcases h with rfl | ⟨_, h⟩
  · decide
  · exact UInt32.lt_of_le_of_lt h (by decide)

/-- A text whose `i`-th character has no lower case starts with no word that has a letter
there. -/
theorem startsWith_eq_false {word t : Text} (i : Nat) {c w : Char} (hw : word[i]? = some w)
    (hc : t[i]? = some c) (hlt : c < 'A') (hne : c ≠ w) : startsWith word t = false := by
  rw [startsWith, decide_eq_false_iff_not]
  intro h
  have hi : i < word.length := (List.getElem?_eq_some_iff.mp hw).1
  have hget : ((t.take word.length).map Char.toLower)[i]? = some c := by
    rw [List.getElem?_map, List.getElem?_take_of_lt hi, hc, Option.map_some, toLower_of_lt hlt]
  rw [h, hw] at hget
  exact hne (Option.some.inj hget).symm

/-- There is no exponent at the end of a number. -/
theorem exponentItem_of_delimited {r : Text} (hr : Delimited r) :
    exponentItem (fun c => c.toLower = 'e') r = (some 0, r) := by
  cases r with
  | nil => rfl
  | cons c t =>
    have hlt := lt_of_isSpace (hr c (by simp))
    have hne : c.toLower ≠ 'e' := by
      rw [toLower_of_lt hlt]
      rintro rfl
      exact absurd hlt (by decide)
    simp [exponentItem, hne]

/-- A number of fixed decimals is an input item, and the item ends with it. -/
theorem numberItem_printFixed (neg : Bool) (k n : Nat) (hk : 0 < k) {r : Text}
    (hr : Delimited r) :
    numberItem neg (printUnsigned (n / 10 ^ k) ++ '.' :: printPadded k (n % 10 ^ k) ++ r) =
      (some (.decimal neg n (-k)), r) := by
  have hlen := length_printPadded hk (Nat.mod_lt n (show 0 < 10 ^ k by positivity))
  have hval := ofDigitChars_fixed k n hk
  have hpad : ∀ d ∈ printPadded k (n % 10 ^ k), d.isDigit = true :=
    fun _ => isDigit_of_mem_printPadded
  have hwhole : ∀ d ∈ printUnsigned (n / 10 ^ k), d.isDigit = true :=
    fun _ => isDigit_of_mem_printUnsigned
  obtain ⟨c, ds, hds⟩ := List.exists_cons_of_ne_nil (printUnsigned_ne_nil (n / 10 ^ k))
  rw [hds] at hval hwhole ⊢
  generalize printPadded k (n % 10 ^ k) = frac at hlen hval hpad ⊢
  have hc := lt_of_isDigit (hwhole c (by simp))
  have hdrop : (c :: ds ++ '.' :: frac ++ r).dropWhile Char.isDigit = '.' :: (frac ++ r) := by
    rw [List.append_assoc, List.dropWhile_append_of_pos hwhole]
    rfl
  have htake : (c :: ds ++ '.' :: frac ++ r).takeWhile Char.isDigit = c :: ds := by
    rw [List.append_assoc, List.takeWhile_append_of_pos hwhole]
    simp
  have hfrac : scanFraction Char.isDigit ('.' :: (frac ++ r)) = (frac, r) := by
    rw [scanFraction, List.takeWhile_append_of_pos hpad, List.dropWhile_append_of_pos hpad,
      takeWhile_isDigit_of_delimited hr, dropWhile_isDigit_of_delimited hr, List.append_nil]
  have hdigits : digitsItem Char.isDigit (fun c => c.toLower = 'e')
      (c :: ds ++ '.' :: frac ++ r) = (some (c :: ds ++ frac, k, 0), r) := by
    unfold digitsItem
    simp only [htake, hdrop, hfrac, exponentItem_of_delimited hr, hlen]
    simp
  -- the second character is a digit or the point
  have hhex : startsWith ['0', 'x'] (c :: ds ++ '.' :: frac ++ r) = false := by
    cases ds with
    | nil => exact startsWith_eq_false (w := 'x') (c := '.') 1 rfl rfl (by decide) (by decide)
    | cons d ds =>
      have hd := hwhole d (by simp)
      refine startsWith_eq_false (w := 'x') (c := d) 1 rfl rfl (lt_of_isDigit hd) ?_
      rintro rfl
      cases hd
  have hword : ∀ w, 'A' ≤ w → startsWith [w] (c :: ds ++ '.' :: frac ++ r) = false := by
    intro w hw
    refine startsWith_eq_false (w := w) (c := c) 0 rfl rfl hc ?_
    rintro rfl
    exact absurd hc (UInt32.not_lt.mpr hw)
  unfold numberItem
  simp only [hword 'i' (by decide), hword 'n' (by decide), hhex, hdigits, Option.map_some, hval]
  simp

/-- A number printed with `%.kf` is read back as its decimals. -/
theorem scanLongDouble_printFixed (neg : Bool) (k n : Nat) (hk : 0 < k) {r : Text}
    (hr : Delimited r) :
    scanLongDouble (printFixed k neg n ++ r) = .assigned (.decimal neg n (-k)) r := by
  have hnum := numberItem_printFixed neg k n hk hr
  obtain ⟨c, ds, hds⟩ := List.exists_cons_of_ne_nil (printUnsigned_ne_nil (n / 10 ^ k))
  have hc : c.isDigit = true :=
    isDigit_of_mem_printUnsigned (n := n / 10 ^ k) (by rw [hds]; simp)
  have htext : printFixed k neg n ++ r =
      printSign neg ++ c :: (ds ++ '.' :: printPadded k (n % 10 ^ k) ++ r) := by
    simp [printFixed, hds]
  obtain ⟨d, u, hskip, hsign⟩ := scanSign_printSign neg hc
    (ds ++ '.' :: printPadded k (n % 10 ^ k) ++ r)
  rw [hds] at hnum
  rw [htext]
  unfold scanLongDouble
  rw [hskip]
  simp only [hsign]
  simp only [List.cons_append] at hnum
  rw [hnum]

/-- Where `strtod` finds a number in front of something else, a conversion may take too much. -/
example : scanNumber "infinf".toList = .assigned (.infinity false) "inf".toList ∧
    scanLongDouble "infinf".toList = .matchingFailure "f".toList ∧
    scanLongDouble "100e 5".toList = .matchingFailure " 5".toList := by decide

end Lib
