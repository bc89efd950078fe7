import RADclock.Lib.Decimal
import RADclock.Stamp.Types

/-!
# The ascii stamp file (`stampoutput.c`, `stampinput-ascii.c`)

A radclock can write its stamps to a file and a later one can replay them. The writer has two
line formats: five columns when there is one server, a sixth with the server ID otherwise. The
reader has one `fscanf` format for both, with six columns, and skips to the end of the line after
it. White space in a `fscanf` format matches newlines too, so with five columns the sixth
conversion goes on into the next line, and the skip takes the rest of that line away.

- `printOutFiles`, `openOutputStamp`: the writer.
- `asciistampGetNext`, `openTimestamp`: the reader; a loop of the source that waits for a newline
  at the end of the file never ends (`Next.hang`).
- `ReadBack`: what replaying a written file should give.
- `readBack_iff`: it does exactly when the lines have six columns, or there are none.
-/

namespace RADclock

open Lib

variable {D : Type} [DecimalText D]

/-! ## The writer -/

/-- The header `open_output_stamp` writes. -/
def openOutputStamp : Text :=
  "% BEGIN_HEADER\n".toList ++
  "% description: radclock local vcounter and NTP server stamps\n".toList ++
  "% type: NTP_rad\n".toList ++
  "% version: 4\n".toList ++
  "% fields: Ta Tb Te Tf nonce [sID]\n".toList ++
  "% END_HEADER\n".toList

/-- The first five columns. -/
def printColumns (stamp : StampT D) : Text :=
  printUnsigned stamp.bst.Ta.toNat ++
  ' ' :: DecimalText.printDecimals 9 stamp.bst.Tb ++
  ' ' :: DecimalText.printDecimals 9 stamp.bst.Te ++
  ' ' :: printUnsigned stamp.bst.Tf.toNat ++
  ' ' :: printUnsigned stamp.id.toNat

/-- `print_out_files`, its line of the stamp file. -/
def printOutFiles (nservers : Int) (stamp : StampT D) (sID : Int32) : Text :=
  if nservers = 1 then printColumns stamp ++ ['\n']
  else printColumns stamp ++ ' ' :: printInt sID.toInt ++ ['\n']

/-- The lines of a list of stamps, each with its server. -/
def printStamps (nservers : Int) (stamps : List (StampT D × Int32)) : Text :=
  stamps.flatMap fun p => printOutFiles nservers p.1 p.2

/-- The stamp file. -/
def stampFile (nservers : Int) (stamps : List (StampT D × Int32)) : Text :=
  openOutputStamp ++ printStamps nservers stamps

/-! ## The reader -/

/-- `while ((fgetc(fd)) != '\n') {}`: at the end of the file `fgetc` returns `EOF` for ever. -/
def skipLine : Text → Option Text
  | [] => none
  | c :: t => if c = '\n' then some t else skipLine t

/-- `skip_commentblock`; the flag says that a comment line is being skipped. -/
def skipCommentblock (commentchar : Char) : Bool → Text → Option Text
  | false, [] => some []
  | true, [] => none
  | false, c :: t =>
    if c = commentchar then skipCommentblock commentchar true t else some (c :: t)
  | true, c :: t => skipCommentblock commentchar (c ≠ '\n') t

/-- `open_timestamp`. -/
def openTimestamp (file : Text) : Option Text := skipCommentblock '%' false file

/-- The next conversion of a `fscanf`, if this one assigned. -/
def convert {α β : Type} (c : Conv α) (stop : Text → β) (next : α → Text → β) : β :=
  match c with
  | .assigned a rest => next a rest
  | .inputFailure => stop []
  | .matchingFailure rest => stop rest

/-- `fscanf(fd, "%llu %Lf %Lf %llu %llu %d", ..)` into `stamp` and `input_sID`, which starts as
`0`. `none` is `EOF`; a conversion that fails leaves the rest unassigned. -/
def fscanfStamp (stamp : StampT D) (fd : Text) : Option (StampT D × Int32 × Text) :=
  match scanUnsigned fd with
  | .inputFailure => none
  | .matchingFailure rest => some (stamp, 0, rest)
  | .assigned Ta fd =>
    some <|
      let stamp := { stamp with bst := { stamp.bst with Ta := Ta } }
      convert (scanLongDouble fd) (fun rest => (stamp, 0, rest)) fun Tb fd =>
      let stamp := { stamp with bst := { stamp.bst with Tb := DecimalText.ofNumber Tb } }
      convert (scanLongDouble fd) (fun rest => (stamp, 0, rest)) fun Te fd =>
      let stamp := { stamp with bst := { stamp.bst with Te := DecimalText.ofNumber Te } }
      convert (scanUnsigned fd) (fun rest => (stamp, 0, rest)) fun Tf fd =>
      let stamp := { stamp with bst := { stamp.bst with Tf := Tf } }
      convert (scanUnsigned fd) (fun rest => (stamp, 0, rest)) fun id fd =>
      let stamp := { stamp with id := id }
      convert (scanInt fd) (fun rest => (stamp, 0, rest)) fun inputSID fd =>
      (stamp, inputSID, fd)

/-- A call of `asciistamp_get_next`: end of file, a loop that never ends, or a stamp. -/
inductive Next (D : Type) where
  | eof
  | hang
  | stamp (s : StampT D) (fd : Text)

/-- The fake address of a server of the input. -/
def fakeAddress (inputSID : Int32) : Text := "10.0.0.".toList ++ printInt inputSID.toInt

/-- `asciistamp_get_next`, into the caller's `stamp`. -/
def asciistampGetNext (stamp : StampT D) (fd : Text) : Next D :=
  match fscanfStamp stamp fd with
  | none => .eof
  | some (stamp, inputSID, rest) =>
    match skipLine rest with
    | none => .hang
    | some fd =>
      .stamp { stamp with serverIpaddr := fakeAddress inputSID, type := .ntp } fd

/-- The stamps that calls of `asciistamp_get_next` return until the end of the file, if that
comes within `n` calls. The `i`-th call finds `bufs i` in the caller's stamp. -/
def replay (bufs : Nat → StampT D) : Nat → Text → Option (List (StampT D))
  | 0, _ => none
  | n + 1, fd =>
    match asciistampGetNext (bufs 0) fd with
    | .eof => some []
    | .hang => none
    | .stamp s fd => (replay (fun i => bufs (i + 1)) n fd).map (s :: ·)

/-! ## What replaying should give -/

/-- The stamp read is the stamp written: the same counters and nonce, the same server times to
nine decimals, and the address that stands for the server ID written. -/
structure SameStamp (nservers : Int) (written : StampT D × Int32) (read : StampT D) : Prop where
  Ta : read.bst.Ta = written.1.bst.Ta
  Tb : DecimalText.printDecimals 9 read.bst.Tb = DecimalText.printDecimals 9 written.1.bst.Tb
  Te : DecimalText.printDecimals 9 read.bst.Te = DecimalText.printDecimals 9 written.1.bst.Te
  Tf : read.bst.Tf = written.1.bst.Tf
  id : read.id = written.1.id
  server : read.serverIpaddr = fakeAddress (if nservers = 1 then 0 else written.2)

/-- Replaying the file gives the stamps written, in order, and then the end of the file. -/
def ReadBack (bufs : Nat → StampT D) (nservers : Int) (stamps : List (StampT D × Int32)) : Prop :=
  ∃ fd calls read, openTimestamp (stampFile nservers stamps) = some fd ∧
    replay bufs calls fd = some read ∧ List.Forall₂ (SameStamp nservers) stamps read

/-! ## Lines -/

theorem skipLine_append {x : Text} (hx : '\n' ∉ x) (r : Text) :
    skipLine (x ++ '\n' :: r) = some r := by
  induction x with
  | nil => rfl
  | cons c x ih =>
    simp only [List.mem_cons, not_or] at hx
    rw [List.cons_append, skipLine, if_neg (Ne.symm hx.1), ih hx.2]

theorem newline_notMem_of_digits {x : Text} (h : ∀ c ∈ x, c.isDigit = true) : '\n' ∉ x :=
  fun hmem => absurd (h _ hmem) (by decide)

theorem newline_notMem_printUnsigned (n : Nat) : '\n' ∉ printUnsigned n :=
  newline_notMem_of_digits fun _ => isDigit_of_mem_printUnsigned

theorem newline_notMem_printDecimals (k : Nat) (x : D) :
    '\n' ∉ DecimalText.printDecimals k x := by
  have hpad : '\n' ∉ printPadded k (DecimalText.decimals k x % 10 ^ k) :=
    newline_notMem_of_digits fun _ => isDigit_of_mem_printPadded
  have hsign : '\n' ∉ printSign (DecimalText.neg x) := by
    cases DecimalText.neg x <;> decide
  simp only [DecimalText.printDecimals, printFixed, List.mem_append, List.mem_cons, not_or]
  exact ⟨⟨hsign, newline_notMem_printUnsigned _⟩, by decide, hpad⟩

/-- The stamp that the first five conversions leave in `buf`. -/
def readStamp (buf stamp : StampT D) : StampT D :=
  { buf with
    id := stamp.id
    bst :=
      { Ta := stamp.bst.Ta
        Tb := DecimalText.ofNumber (.decimal (DecimalText.neg stamp.bst.Tb)
          (DecimalText.decimals 9 stamp.bst.Tb) (-9))
        Te := DecimalText.ofNumber (.decimal (DecimalText.neg stamp.bst.Te)
          (DecimalText.decimals 9 stamp.bst.Te) (-9))
        Tf := stamp.bst.Tf } }

/-- Five columns are read as they were written; the sixth conversion starts where they end. -/
theorem fscanfStamp_columns (buf stamp : StampT D) {r : Text} (hr : Delimited r) :
    fscanfStamp buf (printColumns stamp ++ r) =
      some (convert (scanInt r) (fun rest => (readStamp buf stamp, 0, rest))
        fun inputSID fd => (readStamp buf stamp, inputSID, fd)) := by
  have hspace : ∀ t, Delimited (' ' :: t) := fun t => delimited_cons rfl
  have hTa := fun t => scanUnsigned_print stamp.bst.Ta (hspace t)
  have hTb := fun t => DecimalText.scanLongDouble_printDecimals (k := 9) (by decide)
    stamp.bst.Tb (hspace t)
  have hTe := fun t => DecimalText.scanLongDouble_printDecimals (k := 9) (by decide)
    stamp.bst.Te (hspace t)
  have hTf := fun t => scanUnsigned_print stamp.bst.Tf (hspace t)
  have hid := scanUnsigned_print stamp.id hr
  unfold fscanfStamp printColumns
  simp only [List.append_assoc, List.cons_append, hTa, scanLongDouble_space, hTb, hTe,
    scanUnsigned_space, hTf, hid, convert, readStamp]
  rfl

theorem sameStamp_readStamp (nservers : Int) (buf stamp : StampT D) (sID : Int32) :
    SameStamp nservers (stamp, sID)
      { readStamp buf stamp with
        serverIpaddr := fakeAddress (if nservers = 1 then 0 else sID), type := .ntp } where
  Ta := rfl
  Tb := DecimalText.printDecimals_read_print (by decide) stamp.bst.Tb
  Te := DecimalText.printDecimals_read_print (by decide) stamp.bst.Te
  Tf := rfl
  id := rfl
  server := rfl

/-! ## Six columns -/

/-- One call reads one line. -/
theorem asciistampGetNext_six {nservers : Int} (hns : nservers ≠ 1) (buf stamp : StampT D)
    (sID : Int32) (r : Text) :
    asciistampGetNext buf (printOutFiles nservers stamp sID ++ r) =
      .stamp { readStamp buf stamp with serverIpaddr := fakeAddress sID, type := .ntp } r := by
  have hline : printOutFiles nservers stamp sID ++ r =
      printColumns stamp ++ ' ' :: (printInt sID.toInt ++ '\n' :: r) := by
    simp [printOutFiles, if_neg hns]
  have hint := scanInt_print sID (delimited_cons (t := r) (show isSpace '\n' = true from rfl))
  rw [hline, asciistampGetNext, fscanfStamp_columns buf stamp (delimited_cons rfl),
    scanInt_space, hint]
  rfl

theorem replay_six {nservers : Int} (hns : nservers ≠ 1) (stamps : List (StampT D × Int32)) :
    ∀ bufs, ∃ read, replay bufs (stamps.length + 1) (printStamps nservers stamps) = some read ∧
      List.Forall₂ (SameStamp nservers) stamps read := by
  induction stamps with
  | nil => exact fun bufs => ⟨[], rfl, .nil⟩
  | cons p stamps ih =>
    intro bufs
    obtain ⟨stamp, sID⟩ := p
    obtain ⟨read, hread, hsame⟩ := ih fun i => bufs (i + 1)
    have hfirst := sameStamp_readStamp nservers (bufs 0) stamp sID
    rw [if_neg hns] at hfirst
    refine ⟨_ :: read, ?_, .cons hfirst hsame⟩
    rw [List.length_cons, replay]
    have hcons : printStamps nservers ((stamp, sID) :: stamps) =
        printOutFiles nservers stamp sID ++ printStamps nservers stamps := rfl
    rw [hcons, asciistampGetNext_six hns]
    simp only [hread, Option.map_some]

/-! ## Five columns -/

theorem newline_notMem_printColumns (stamp : StampT D) :
    ∃ x, printColumns stamp = printUnsigned stamp.bst.Ta.toNat ++ ' ' :: x ∧ '\n' ∉ x := by
  refine ⟨DecimalText.printDecimals 9 stamp.bst.Tb ++
    ' ' :: (DecimalText.printDecimals 9 stamp.bst.Te ++
    ' ' :: (printUnsigned stamp.bst.Tf.toNat ++ ' ' :: printUnsigned stamp.id.toNat)), ?_, ?_⟩
  · simp only [printColumns, List.append_assoc, List.cons_append]
  simp only [List.mem_append, List.mem_cons, not_or]
  exact ⟨newline_notMem_printDecimals 9 _, by decide, newline_notMem_printDecimals 9 _,
    by decide, newline_notMem_printUnsigned _, by decide, newline_notMem_printUnsigned _⟩

/-- The last line: no newline is left for the skip to the end of the line. -/
theorem asciistampGetNext_last (buf stamp : StampT D) (sID : Int32) :
    asciistampGetNext buf (printOutFiles 1 stamp sID) = .hang := by
  have hline : printOutFiles 1 stamp sID = printColumns stamp ++ ['\n'] := rfl
  rw [hline, asciistampGetNext, fscanfStamp_columns buf stamp (delimited_cons rfl)]
  rfl

/-- Any other line: the call takes the next line with it. -/
theorem asciistampGetNext_five (buf stamp next : StampT D) (sID sID' : Int32) (r : Text) :
    ∃ s, asciistampGetNext buf (printOutFiles 1 stamp sID ++ (printOutFiles 1 next sID' ++ r)) =
      .stamp s r := by
  obtain ⟨x, hx, hnl⟩ := newline_notMem_printColumns next
  have hline : printOutFiles 1 stamp sID ++ (printOutFiles 1 next sID' ++ r) =
      printColumns stamp ++ '\n' ::
        (printUnsigned next.bst.Ta.toNat ++ ' ' :: (x ++ '\n' :: r)) := by
    simp [printOutFiles, hx]
  have hspace : Delimited (' ' :: (x ++ '\n' :: r)) := delimited_cons rfl
  have hint : scanInt ('\n' :: (printUnsigned next.bst.Ta.toNat ++ ' ' :: (x ++ '\n' :: r))) =
      .assigned (toInt false next.bst.Ta.toNat) (' ' :: (x ++ '\n' :: r)) := by
    show (scanInteger (printUnsigned next.bst.Ta.toNat ++ ' ' :: (x ++ '\n' :: r))).map _ = _
    have h := scanInteger_print false next.bst.Ta.toNat hspace
    rw [printSign, if_neg (by decide), List.nil_append] at h
    rw [h]
    rfl
  have hskip : skipLine (' ' :: (x ++ '\n' :: r)) = some r :=
    skipLine_append (x := ' ' :: x) (by simpa using hnl) r
  rw [hline, asciistampGetNext, fscanfStamp_columns buf stamp (delimited_cons rfl), hint]
  simp only [convert, hskip]
  exact ⟨_, rfl⟩

/-- Whatever is returned, it is half of what was written. -/
theorem replay_five (calls : Nat) :
    ∀ (bufs : Nat → StampT D) (stamps : List (StampT D × Int32)) read,
      replay bufs calls (printStamps 1 stamps) = some read → 2 * read.length = stamps.length := by
  induction calls with
  | zero =>
    intro bufs stamps read h
    cases h
  | succ calls ih =>
    intro bufs stamps read h
    match stamps with
    | [] =>
      cases h
      rfl
    | [(stamp, sID)] =>
      have hone : printStamps 1 [(stamp, sID)] = printOutFiles 1 stamp sID := by
        simp [printStamps]
      rw [replay, hone, asciistampGetNext_last] at h
      cases h
    | (stamp, sID) :: (next, sID') :: stamps =>
      have htwo : printStamps 1 ((stamp, sID) :: (next, sID') :: stamps) =
          printOutFiles 1 stamp sID ++ (printOutFiles 1 next sID' ++ printStamps 1 stamps) := rfl
      obtain ⟨s, hs⟩ := asciistampGetNext_five (bufs 0) stamp next sID sID' (printStamps 1 stamps)
      rw [replay, htwo, hs] at h
      obtain ⟨read', hread', rfl⟩ := Option.map_eq_some_iff.mp h
      have := ih _ stamps read' hread'
      simp only [List.length_cons]
      omega

/-! ## Round trip -/

/-- The header is skipped; what follows it does not start with its comment character. -/
theorem openTimestamp_stampFile (nservers : Int) (stamps : List (StampT D × Int32)) :
    openTimestamp (stampFile nservers stamps) = some (printStamps nservers stamps) := by
  have hheader : ∀ t, openTimestamp (openOutputStamp ++ t) = skipCommentblock '%' false t :=
    fun t => rfl
  rw [stampFile, hheader]
  cases stamps with
  | nil => rfl
  | cons p stamps =>
    obtain ⟨c, ds, hds⟩ := List.exists_cons_of_ne_nil (printUnsigned_ne_nil p.1.bst.Ta.toNat)
    have hc : c ≠ '%' := by
      rintro rfl
      have := isDigit_of_mem_printUnsigned (n := p.1.bst.Ta.toNat) (c := '%') (by simp [hds])
      cases this
    obtain ⟨x, hx, _⟩ := newline_notMem_printColumns p.1
    have hfirst : ∃ u, printStamps nservers (p :: stamps) = c :: u := by
      rw [hds] at hx
      by_cases h : nservers = 1 <;> simp [printStamps, printOutFiles, h, hx]
    obtain ⟨u, hu⟩ := hfirst
    rw [hu, skipCommentblock, if_neg hc]

theorem stamps_eq_nil_of_readBack {bufs : Nat → StampT D} {stamps : List (StampT D × Int32)}
    (h : ReadBack bufs 1 stamps) : stamps = [] := by
  obtain ⟨fd, calls, read, hopen, hread, hsame⟩ := h
  rw [openTimestamp_stampFile] at hopen
  cases hopen
  have hhalf := replay_five calls bufs stamps read hread
  have hlen := hsame.length_eq
  exact List.length_eq_zero_iff.mp (by omega)

/-- The file is read back as it was written exactly when its lines have six columns, or there
are none. -/
theorem readBack_iff (bufs : Nat → StampT D) (nservers : Int)
    (stamps : List (StampT D × Int32)) :
    ReadBack bufs nservers stamps ↔ nservers ≠ 1 ∨ stamps = [] := by
  constructor
  · intro h
    by_cases hns : nservers = 1
    · subst hns
      exact .inr (stamps_eq_nil_of_readBack h)
    · exact .inl hns
  · rintro (hns | rfl)
    · obtain ⟨read, hread, hsame⟩ := replay_six hns stamps bufs
      exact ⟨_, _, read, openTimestamp_stampFile nservers stamps, hread, hsame⟩
    · exact ⟨_, 1, [], openTimestamp_stampFile nservers [], rfl, .nil⟩

/-! ## A file of one server -/

/-- Times in seconds as a `long double` holds them from `2 ^ 30` to `2 ^ 31`, between the years
2004 and 2038: multiples of `2 ^ -33`. -/
structure EpochSeconds where
  neg : Bool
  units : Nat

instance : DecimalText EpochSeconds where
  neg x := x.neg
  mag x := x.units / 2 ^ 33
  ofNumber
    | .decimal b m e => ⟨b, roundHalfEven (m * 10 ^ e * 2 ^ 33)⟩
    | .binary b m e => ⟨b, roundHalfEven (m * 2 ^ e * 2 ^ 33)⟩
    | .infinity b => ⟨b, 0⟩
    | .nan => ⟨false, 0⟩
  mag_nonneg x := by positivity
  dyadic x := ⟨x.units, 33, by field_simp⟩
  neg_decimal b m e := rfl
  nearest b m e x y _ := by
    have hpow : (0 : ℚ) < 2 ^ 33 := by positivity
    have hbest := roundHalfEven_best ((m : ℚ) * 10 ^ e * 2 ^ 33) y.units
    have hscale : ∀ u : ℚ, u / 2 ^ 33 - m * 10 ^ e = (u - m * 10 ^ e * 2 ^ 33) / 2 ^ 33 := by
      intro u
      field_simp
    show |(roundHalfEven _ : ℚ) / 2 ^ 33 - _| ≤ |(y.units : ℚ) / 2 ^ 33 - _|
    rw [hscale, hscale, abs_div, abs_div]
    exact div_le_div_of_nonneg_right hbest (abs_nonneg _)

/-- A stamp of server times `1700000000` and a counter of `1 GHz`. -/
def replayStamp (Ta : VCounter) : StampT EpochSeconds where
  type := .ntp
  id := 7
  serverIpaddr := fakeAddress 0
  ttl := 64
  stratum := 1
  LI := 0
  refid := 0
  rootdelay := ⟨false, 0⟩
  rootdispersion := ⟨false, 0⟩
  bst := ⟨Ta, ⟨false, 1700000000 * 2 ^ 33⟩, ⟨false, 1700000000 * 2 ^ 33⟩, Ta + 500000⟩

/-- Two stamps of a single server do not come back. -/
theorem not_readBack_single : ¬ ReadBack (fun _ => replayStamp 0) 1
    [(replayStamp 1000000000, 0), (replayStamp 17000000000, 0)] := by
  intro h
  cases stamps_eq_nil_of_readBack h

end RADclock
