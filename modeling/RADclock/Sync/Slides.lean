import RADclock.Sync.Invariant

/-!
# The history window

`manage_historywin` prepares the successors of `pstamp` in the middle of the history window
and adopts them at its end. Both are equality tests of the stamp index, against `h_win / 2`
and `history_end`, and each leaves a mark in the log, the second with `pstamp` as the slide
leaves it.

- `slidesOk`: every slide adopts a stamp of the run under its own index, not older than the
  mark before it, with its point error at a period that has been in force since; the first mark
  is the half-window initialisation.
- `SlidesOk`: so in a run, and what is adopted is `pstamp` when the call ends.
- `Marks`: the judgement that carries the last mark along a computation.
- `HalfInv`: as long as there is no mark, the half window still lies ahead, and before the
  end of the window.

A configuration change recomputes `h_win` and leaves `history_end` as it is. `HalfSafe` asks
of a change before the first mark that the new half window be neither behind nor beyond the
end of the window.
-/

namespace RADclock

open Lib Lib.Exec

variable {D : Type}

/-! ## Point errors of past stamps -/

section Priced

variable [Arith D]

/-- The point error of a past stamp, by its RTT baseline and the period `phat`. The source takes
the difference of the RTTs before or after it goes over to doubles. -/
def PastStamp.ErrAt (r : PastStamp D) (phat : D) : Prop :=
  r.perr = phat * (vcD r.stamp.RTT - vcD r.RTThat) ∨ r.perr = phat * vcD (r.stamp.RTT - r.RTThat)

/-- The error of a past stamp was taken at a period in force (`G`) at a stamp before `n`, the past
stamp itself or a later one. -/
def PastStamp.Priced (G : Nat → D → Prop) (n : Nat) (r : PastStamp D) : Prop :=
  ∃ i phat, r.i ≤ i ∧ i < n ∧ G i phat ∧ r.ErrAt phat

/-- What was known of a stamp is known later. -/
theorem PastStamp.Priced.mono {G : Nat → D → Prop} {n n' : Nat} {r : PastStamp D}
    (h : r.Priced G n) (hn : n ≤ n') : r.Priced G n' := by
  obtain ⟨i, phat, hle, hlt, hG, herr⟩ := h
  exact ⟨i, phat, hle, Nat.lt_of_lt_of_le hlt hn, hG, herr⟩

/-! ## Marks in a log -/

/-- Slides along a log, given the last mark before it. -/
def slidesOk (F : Nat → BidirStamp D) (G : Nat → D → Prop) :
    Option Nat → List (Event D) → Prop
  | _, [] => True
  | _, .halfWindow i :: l => slidesOk F G (some i) l
  | m, .slide i r :: l =>
    (∃ k, m = some k ∧ k ≤ r.i) ∧ r.i ≤ i ∧ r.stamp = F r.i ∧ r.Priced G (i + 1) ∧
      slidesOk F G (some i) l
  | m, .find .. :: l => slidesOk F G m l
  | m, .diff .. :: l => slidesOk F G m l
  | m, .pointErr .. :: l => slidesOk F G m l

end Priced

/-- The last mark of a log. -/
def lastMark : Option Nat → List (Event D) → Option Nat
  | m, [] => m
  | _, .halfWindow i :: l => lastMark (some i) l
  | _, .slide i _ :: l => lastMark (some i) l
  | m, .find .. :: l => lastMark m l
  | m, .diff .. :: l => lastMark m l
  | m, .pointErr .. :: l => lastMark m l

/-- Not a mark. -/
def Event.Silent : Event D → Prop
  | .halfWindow _ => False
  | .slide .. => False
  | _ => True

/-- The periods in force along a run: `phat` before the call for stamp `i`. -/
def phatAt [Arith D] (cs : List (Call D)) (i : Nat) (phat : D) : Prop :=
  ∃ s, (run (cs.take i)).res = some s ∧ s.osc.phat = phat

/-- Every slide of a run adopts a stamp that has been processed since the mark before it, and
`pstamp` is what was adopted. -/
def SlidesOk [Arith D] (cs : List (Call D)) : Prop :=
  slidesOk (stampsOf cs) (phatAt cs) none (run cs).log ∧
    ∀ n c s s', cs[n]? = some c → (run (cs.take n)).res = some s →
      (RADalgoBidir c.conf c.inp s).res = some s' →
      ∀ i r, .slide i r ∈ (RADalgoBidir c.conf c.inp s).log → i = n ∧ s'.past.current = r

section Logs

variable [Arith D] {F : Nat → BidirStamp D} {G : Nat → D → Prop} {m : Option Nat}
  {l l' : List (Event D)}

omit [Arith D] in
/-- The last mark of two logs. -/
theorem lastMark_append : lastMark m (l ++ l') = lastMark (lastMark m l) l' := by
  induction l generalizing m with
  | nil => rfl
  | cons e l ih => cases e <;> exact ih

/-- Two logs whose slides are right, the second from the last mark of the first. -/
theorem slidesOk_append (h : slidesOk F G m l) (h' : slidesOk F G (lastMark m l) l') :
    slidesOk F G m (l ++ l') := by
  induction l generalizing m with
  | nil => exact h'
  | cons e l ih =>
    cases e with
    | slide i r => exact ⟨h.1, h.2.1, h.2.2.1, h.2.2.2.1, ih h.2.2.2.2 h'⟩
    | halfWindow => exact ih h h'
    | find => exact ih h h'
    | diff => exact ih h h'
    | pointErr => exact ih h h'

/-- A silent log has no slides, and leaves the last mark where it was. -/
theorem slidesOk_silent (h : ∀ e ∈ l, e.Silent) : slidesOk F G m l ∧ lastMark m l = m := by
  induction l with
  | nil => exact ⟨True.intro, rfl⟩
  | cons e l ih =>
    have hl := ih fun e' he' => h e' (List.mem_cons_of_mem e he')
    have he := h e List.mem_cons_self
    cases e with
    | halfWindow => exact he.elim
    | slide => exact he.elim
    | find => exact hl
    | diff => exact hl
    | pointErr => exact hl

/-- Where slides are in order, the first mark is a half-window initialisation. -/
theorem exists_half_of_slide {i : Nat} {r : PastStamp D} (h : slidesOk F G none l)
    (hmem : .slide i r ∈ l) : ∃ k, .halfWindow k ∈ l := by
  induction l with
  | nil => cases hmem
  | cons e l ih =>
    have htail (h' : slidesOk F G none l) (hne : e ≠ .slide i r) :
        ∃ k, .halfWindow k ∈ e :: l := by
      rcases List.mem_cons.mp hmem with heq | hl
      · exact absurd heq.symm hne
      · obtain ⟨k, hk⟩ := ih h' hl
        exact ⟨k, List.mem_cons_of_mem e hk⟩
    cases e with
    | halfWindow k => exact ⟨k, List.mem_cons_self⟩
    | slide =>
      obtain ⟨⟨k, hk, -⟩, -⟩ := h
      cases hk
    | find => exact htail h (fun heq => by cases heq)
    | diff => exact htail h (fun heq => by cases heq)
    | pointErr => exact htail h (fun heq => by cases heq)

end Logs

/-! ## The judgement -/

section Marks

variable [Arith D] {F : Nat → BidirStamp D} {G : Nat → D → Prop} {m : Option Nat} {α β : Type}
  {Q : Option Nat → α → Prop}

/-- Given the last mark `m` before it, the slides of a computation are in order, and a result
stands in the relation `Q` to the last mark after it. -/
def Marks (F : Nat → BidirStamp D) (G : Nat → D → Prop) (m : Option Nat) (c : Algo D α)
    (Q : Option Nat → α → Prop) : Prop :=
  slidesOk F G m c.log ∧ ∀ a, c.res = some a → Q (lastMark m c.log) a

/-- One computation after the other. -/
theorem Marks.bind {c : Algo D α} {f : α → Algo D β} {R : Option Nat → β → Prop}
    (hc : Marks F G m c Q) (hf : ∀ m' a, Q m' a → Marks F G m' (f a) R) :
    Marks F G m (c >>= f) R := by
  obtain ⟨hlog, hres⟩ := hc
  show Marks F G m (Exec.bind c f) R
  unfold Exec.bind
  cases hr : c.res with
  | none => exact ⟨hlog, fun _ h => (nomatch h)⟩
  | some a =>
    obtain ⟨hlog', hres'⟩ := hf _ a (hres a hr)
    refine ⟨slidesOk_append hlog hlog', fun b hb => ?_⟩
    show R (lastMark m (c.log ++ (f a).log)) b
    rw [lastMark_append]
    exact hres' b hb

/-- A computation that leaves no marks. -/
theorem Marks.silent {c : Algo D α} (he : Emits Event.Silent c) (hr : Returns c (Q m)) :
    Marks F G m c Q := by
  obtain ⟨hok, hlast⟩ := slidesOk_silent (F := F) (G := G) (m := m) he
  exact ⟨hok, fun a ha => hlast.symm ▸ hr a ha⟩

/-- A value returned. -/
theorem Marks.pure {a : α} (h : Q m a) : Marks F G m (Pure.pure a) Q :=
  Marks.silent Emits.pure (Returns.pure h)

/-- Either branch, under its condition. -/
theorem Marks.ite {p : Prop} [Decidable p] {c d : Algo D α} (hc : p → Marks F G m c Q)
    (hd : ¬p → Marks F G m d Q) : Marks F G m (if p then c else d) Q := by
  by_cases h : p
  · rw [if_pos h]
    exact hc h
  · rw [if_neg h]
    exact hd h

/-- What is known of the result without the log. -/
theorem Marks.and_returns {c : Algo D α} {R : α → Prop} (hc : Marks F G m c Q)
    (hr : Returns c R) : Marks F G m c fun m' a => Q m' a ∧ R a :=
  ⟨hc.1, fun a ha => ⟨hc.2 a ha, hr a ha⟩⟩

/-- Less may be said. -/
theorem Marks.mono {c : Algo D α} {R : Option Nat → α → Prop} (hc : Marks F G m c Q)
    (h : ∀ m' a, Q m' a → R m' a) : Marks F G m c R := ⟨hc.1, fun a ha => h _ a (hc.2 a ha)⟩

end Marks

/-! ## What is adopted stays -/

section Adopts

variable {n : Nat}

/-- A slide in the log is that of stamp `n`, and what it adopted is `pstamp` in the result. -/
def Adopts (n : Nat) (c : Algo D (AlgoState D)) : Prop :=
  ∀ s', c.res = some s' → ∀ i r, .slide i r ∈ c.log → i = n ∧ s'.past.current = r

/-- What is silent adopts nothing. -/
theorem Adopts.silent {c : Algo D (AlgoState D)} (he : Emits Event.Silent c) : Adopts n c :=
  fun _ _ _ _ hmem => (he _ hmem).elim

/-- After something silent. -/
theorem Adopts.after {α : Type} {c : Algo D α} {f : α → Algo D (AlgoState D)}
    (he : Emits Event.Silent c) (hf : ∀ a, c.res = some a → Adopts n (f a)) :
    Adopts n (c >>= f) := by
  intro s' hres i r hmem
  obtain ⟨a, hr, hres'⟩ := bind_res_some.mp hres
  rw [bind_log_of_some hr] at hmem
  rcases List.mem_append.mp hmem with h | h
  · exact (he _ h).elim
  · exact hf a hr s' hres' i r h

/-- Before something silent that leaves the past alone. -/
theorem Adopts.before {c : Algo D (AlgoState D)} {f : AlgoState D → Algo D (AlgoState D)}
    (hc : Adopts n c) (he : ∀ a, Emits Event.Silent (f a))
    (hk : ∀ a, Returns (f a) fun s' => s'.past.current = a.past.current) : Adopts n (c >>= f) := by
  intro s' hres i r hmem
  obtain ⟨a, hr, hres'⟩ := bind_res_some.mp hres
  rw [bind_log_of_some hr] at hmem
  rcases List.mem_append.mp hmem with h | h
  · obtain ⟨hi, hcur⟩ := hc a hr i r h
    exact ⟨hi, (hk a s' hres').trans hcur⟩
  · exact (he a _ h).elim

end Adopts

/-! ## What the rest of a call leaves alone -/

section Carries

variable [Arith D]

/-- From `s` to `s'` the windows and `pstamp` are the same. The next `pstamp` is too, or it is the
same stamp or the stamp `st` being processed, with its point error at the period `p`. -/
structure Carries (st : BidirStamp D) (p : D) (s s' : AlgoState D) : Prop extends
    SameWin s.win s'.win where
  stampI : s'.stampI = s.stampI
  current : s'.past.current = s.past.current
  next : s'.past.next = s.past.next ∨
    (s'.past.nextPstampI = s.past.nextPstampI ∧ s'.past.nextPstamp = s.past.nextPstamp ∨
      s'.past.nextPstampI = s.si ∧ s'.past.nextPstamp = st) ∧ s'.past.next.ErrAt p

variable {st : BidirStamp D} {p : D} {s s' s'' : AlgoState D}

/-- Two carries in a row. -/
theorem Carries.trans (h : Carries st p s s') (h' : Carries st p s' s'') :
    Carries st p s s'' where
  toSameWin := h.toSameWin.trans h'.toSameWin
  stampI := h'.stampI.trans h.stampI
  current := h'.current.trans h.current
  next := by
    have hsi : s'.si = s.si := by
      unfold AlgoState.si
      rw [h.stampI]
    rcases h'.next with hsame | ⟨hst, herr⟩
    · have hi : s''.past.nextPstampI = s'.past.nextPstampI := congrArg PastStamp.i hsame
      have hp : s''.past.nextPstamp = s'.past.nextPstamp := congrArg PastStamp.stamp hsame
      rw [hsame, hi, hp]
      exact h.next
    · refine Or.inr ⟨?_, herr⟩
      rcases hst with ⟨hi, hp⟩ | ⟨hi, hp⟩
      · rw [hi, hp]
        rcases h.next with hsame | ⟨hst, -⟩
        · exact Or.inl ⟨congrArg PastStamp.i hsame, congrArg PastStamp.stamp hsame⟩
        · exact hst
      · exact Or.inr ⟨hi.trans hsi, hp⟩

/-- A carry after what has been carried so far. -/
theorem Carries.after {c : Algo D (AlgoState D)} (hs : Carries st p s s')
    (h : Returns c (Carries st p s')) : Returns c (Carries st p s) := h.mono fun _ h' => hs.trans h'

/-- On an upshift the error of the next `pstamp` is taken anew. -/
theorem recalcNextPstamp_past (s : AlgoState D) : ∃ past, recalcNextPstamp s =
    { s with past := past } ∧ past.current = s.past.current ∧ (past.next = s.past.next ∨
      past.nextPstampI = s.past.nextPstampI ∧ past.nextPstamp = s.past.nextPstamp ∧
        past.next.ErrAt s.osc.phat) := by
  unfold recalcNextPstamp
  split
  · exact ⟨_, rfl, rfl, Or.inr ⟨rfl, rfl, Or.inl rfl⟩⟩
  · exact ⟨_, rfl, rfl, Or.inl rfl⟩

/-- An upshift recomputes the error of the candidate with the period in force. -/
theorem detectUpshift_carries (st : BidirStamp D) (hp : s.osc.phat = p) :
    Returns (detectUpshift s) fun s' => s'.osc.phat = p ∧ Carries st p s s' := by
  refine Returns.ite (fun _ => ?_) fun _ => Returns.pure ⟨hp, ?_⟩
  · obtain ⟨past, heq, hcur, hnext⟩ := recalcNextPstamp_past (adoptShift s)
    dsimp only
    rw [heq]
    refine Returns.skip fun h =>
      Returns.pure ⟨hp, ⟨rfl, rfl, rfl, rfl, rfl, rfl, rfl⟩, rfl, hcur, ?_⟩
    rcases hnext with hsame | ⟨hi, hst, herr⟩
    · exact Or.inl hsame
    · exact Or.inr ⟨Or.inl ⟨hi, hst⟩, hp ▸ herr⟩
  · exact ⟨⟨rfl, rfl, rfl, rfl, rfl, rfl, rfl⟩, rfl, rfl, Or.inl rfl⟩

/-- `process_RTT_full` touches the past through an upshift only. -/
theorem processRTTFull_carries (st : BidirStamp D) (RTT : VCounter) (hp : s.osc.phat = p) :
    Returns (processRTTFull RTT s) fun s' => s'.osc.phat = p ∧ Carries st p s s' := by
  refine Returns.bind (updateRTTShift_frame RTT (updateRTTMinima RTT s)) ?_
  intro s1 hs1
  have h1 : s1.osc.phat = p ∧ Carries st p s s1 := by
    obtain ⟨v, e, rfl⟩ := hs1
    exact ⟨hp, ⟨rfl, rfl, rfl, rfl, rfl, rfl, rfl⟩, rfl, rfl, Or.inl rfl⟩
  exact (detectUpshift_carries st h1.1).mono fun s2 h2 => ⟨h2.1, h1.2.trans h2.2⟩

/-- The one-way minima do not touch the past. -/
theorem processOWDAsymFull_carries (hp : s.osc.phat = p) :
    Returns (processOWDAsymFull st s) fun s' => s'.osc.phat = p ∧ Carries st p s s' := by
  refine (processOWDAsymFull_frame _ _).mono ?_
  rintro s' ⟨owd, e, Dfhat, Dbhat, Asymhat, rfl⟩
  exact ⟨hp, ⟨rfl, rfl, rfl, rfl, rfl, rfl, rfl⟩, rfl, rfl, Or.inl rfl⟩

/-- A new candidate is this stamp, with the error it has under the period in force. -/
theorem updateNextPstamp_carries (hp : s.osc.phat = p) :
    Returns (updateNextPstamp st st.RTT s) (Carries st p s) := by
  refine Returns.ite (fun _ => Returns.ite (fun _ => ?_) fun _ => Returns.pure ?_)
    fun _ => Returns.pure ?_
  · refine Returns.skip fun _ => Returns.pure ?_
    exact ⟨⟨rfl, rfl, rfl, rfl, rfl, rfl, rfl⟩, rfl, rfl,
      Or.inr ⟨Or.inr ⟨rfl, rfl⟩, Or.inr (hp ▸ rfl)⟩⟩
  · exact ⟨⟨rfl, rfl, rfl, rfl, rfl, rfl, rfl⟩, rfl, rfl, Or.inl rfl⟩
  · exact ⟨⟨rfl, rfl, rfl, rfl, rfl, rfl, rfl⟩, rfl, rfl, Or.inl rfl⟩

/-- The period does not touch the past. -/
theorem processPhatFull_carries (RTT : VCounter) (q : Bool) :
    Returns (processPhatFull st RTT q s) (Carries st p s) := by
  refine (processPhatFull_frame _ _ _ _).mono ?_
  rintro s' ⟨K, phat, perr, c, stt, rfl⟩
  exact ⟨⟨rfl, rfl, rfl, rfl, rfl, rfl, rfl⟩, rfl, rfl, Or.inl rfl⟩

/-- Nor does the local period. -/
theorem processPlocalFull_carries (st : BidirStamp D) (q : Bool) :
    Returns (processPlocalFull q s) (Carries st p s) := by
  refine (processPlocalFull_frame _ _).mono ?_
  rintro s' ⟨en, ends, ploc, out, stt, rfl⟩
  exact ⟨⟨rfl, rfl, rfl, rfl, rfl, rfl, rfl⟩, rfl, rfl, Or.inl rfl⟩

/-- Nor does the offset. -/
theorem processThetahatFull_carries (mp : Metaparam D) (q : Bool) (E : D) :
    Returns (processThetahatFull mp st q E s) (Carries st p s) := by
  refine (processThetahatFull_frame _ _ _ _ _).mono ?_
  rintro s' ⟨t, off, err, stt, out, rfl, -⟩
  exact ⟨⟨rfl, rfl, rfl, rfl, rfl, rfl, rfl⟩, rfl, rfl, Or.inl rfl⟩

/-- Nor do the path penalties. -/
theorem updatePathpenaltyFull_carries (mp : Metaparam D) :
    Returns (updatePathpenaltyFull mp st s) (Carries st p s) := by
  refine (updatePathpenaltyFull_frame _ _ _).mono ?_
  rintro s' ⟨pen, out, rfl⟩
  exact ⟨⟨rfl, rfl, rfl, rfl, rfl, rfl, rfl⟩, rfl, rfl, Or.inl rfl⟩

/-- The sub-algorithms of the full phase that follow `manage_historywin`. The first three of them
leave the period as it was. -/
theorem afterManage_carries (mp : Metaparam D) (inp : Input D) :
    Returns (do
      let s ← processRTTFull inp.stamp.RTT s
      let s ← processOWDAsymFull inp.stamp s
      let s ← updateNextPstamp inp.stamp inp.stamp.RTT s
      let s ← processPhatFull inp.stamp inp.stamp.RTT inp.qualWarning s
      let s ← processPlocalFull inp.qualWarning s
      let s ← processThetahatFull mp inp.stamp inp.qualWarning inp.Ebound s
      updatePathpenaltyFull mp inp.stamp s) (Carries inp.stamp s.osc.phat s) := by
  refine Returns.bind (processRTTFull_carries inp.stamp _ rfl) ?_
  rintro s1 ⟨hp1, h1⟩
  refine Returns.bind (processOWDAsymFull_carries hp1) ?_
  rintro s2 ⟨hp2, h2⟩
  have h2 := h1.trans h2
  refine Returns.bind (h2.after (updateNextPstamp_carries hp2)) fun s3 h3 => ?_
  refine Returns.bind (h3.after (processPhatFull_carries _ _)) fun s4 h4 => ?_
  refine Returns.bind (h4.after (processPlocalFull_carries _ _)) fun s5 h5 => ?_
  refine Returns.bind (h5.after (processThetahatFull_carries _ _ _)) fun s6 h6 => ?_
  exact h6.after (updatePathpenaltyFull_carries _)

/-- The last statements of a call. -/
theorem finish_frame (mp : Metaparam D) :
    Returns (do
      let s ← updateErrors mp st (copyStamp st s)
      pure (fillOutput st.RTT s)) (fun s' => s'.stampI = s.stampI ∧ s'.win = s.win ∧
        s'.past = s.past) := by
  obtain ⟨stats, hcopy⟩ := copyStamp_frame st s
  rw [hcopy]
  refine Returns.bind (updateErrors_frame _ _ _) ?_
  rintro s1 ⟨err, rfl⟩
  exact Returns.pure ⟨rfl, rfl, rfl⟩

end Carries

/-! ## The invariant -/

variable [Arith D]

/-- Where the history window stands before stamp `n`, `m` being the last mark. -/
inductive HalfPhase (F : Nat → BidirStamp D) (G : Nat → D → Prop) (n : Nat) (m : Option Nat)
    (s : AlgoState D) : Prop
  /-- Warmup: no mark, and the half window lies beyond it. -/
  | warmup (more : n < s.win.warmupWin) (win : WarmWin s.win) (search : s.win.jsearchWin = 0)
      (unmarked : m = none)
  /-- The half window lies ahead, and before the end of the window. -/
  | ahead (full : s.win.warmupWin ≤ n) (search : s.win.jsearchWin = 0) (unmarked : m = none)
      (half : n ≤ s.win.hWin / 2) (le_end : s.win.hWin / 2 ≤ s.win.historyEnd)
  /-- The next `pstamp` is a stamp of the run, not older than the last mark, with its error. -/
  | marked (full : s.win.warmupWin ≤ n) (k : Nat) (last : m = some k)
      (since : k ≤ s.past.nextPstampI) (lt : s.past.nextPstampI < n)
      (stamp : s.past.nextPstamp = F s.past.nextPstampI) (err : s.past.next.Priced G n)

/-- The invariant between calls, after `n` stamps. -/
structure HalfInv (F : Nat → BidirStamp D) (G : Nat → D → Prop) (n : Nat) (m : Option Nat)
    (s : AlgoState D) : Prop where
  pos : 0 < n
  idx : s.stampI + 1 = n
  phase : HalfPhase F G n m s

/-- A configuration change in the full phase that comes before the half-window
initialisation puts the new half window neither behind the stamp nor beyond the end of the
window. -/
def HalfSafe (conf : Config D) (s : AlgoState D) : Prop :=
  conf.algoUpdate = true → NextFull s → s.win.jsearchWin = 0 →
    s.stampI + 1 ≤ (baseHWin conf.pollPeriod / 2 : Nat) ∧
      baseHWin conf.pollPeriod / 2 ≤ s.win.historyEnd

section Step

variable {F : Nat → BidirStamp D} {G : Nat → D → Prop} {m : Option Nat} {n : Nat}
  {s s' : AlgoState D}

omit [Arith D] in
/-- The stamp counter as an unsigned index. -/
theorem si_of_stampI (h : s.stampI = n) : s.si = n := by
  unfold AlgoState.si
  omega

/-- The phase is a matter of the windows and the past. -/
theorem HalfPhase.congr (h : HalfPhase F G n m s) (hwin : s'.win = s.win)
    (hpast : s'.past = s.past) : HalfPhase F G n m s' := by
  cases h with
  | warmup more win search unmarked =>
    exact .warmup (hwin ▸ more) (hwin ▸ win) (hwin ▸ search) unmarked
  | ahead full search unmarked half le_end =>
    exact .ahead (hwin ▸ full) (hwin ▸ search) unmarked (hwin ▸ half) (hwin ▸ le_end)
  | marked full k last since lt stamp err =>
    exact .marked (hwin ▸ full) k last (hpast ▸ since) (hpast ▸ lt) (hpast ▸ stamp) (hpast ▸ err)

/-- What a call carries keeps the phase. -/
theorem HalfPhase.carry {p : D} (h : HalfPhase F G (n + 1) m s) (hsi : s.si = n) (hp : G n p)
    (hc : Carries (F n) p s s') (hfull : s.win.warmupWin ≤ n + 1) :
    HalfPhase F G (n + 1) m s' := by
  cases h with
  | warmup more => omega
  | ahead full search unmarked half le_end =>
    refine .ahead ?_ (hc.jsearchWin.trans search) unmarked ?_ ?_
    · rw [hc.warmupWin]
      exact full
    · rw [hc.hWin]
      exact half
    · rw [hc.hWin, hc.historyEnd]
      exact le_end
  | marked full k last since lt stamp err =>
    have hfull' : s'.win.warmupWin ≤ n + 1 := hc.warmupWin ▸ full
    rcases hc.next with hsame | ⟨⟨hi, hst⟩ | ⟨hi, hst⟩, herr⟩
    · have hi : s'.past.nextPstampI = s.past.nextPstampI := congrArg PastStamp.i hsame
      have hst : s'.past.nextPstamp = s.past.nextPstamp := congrArg PastStamp.stamp hsame
      exact .marked hfull' k last (hi ▸ since) (hi ▸ lt) (by rw [hst, hi, stamp]) (hsame ▸ err)
    · -- an upshift: the error is taken anew at this stamp
      exact .marked hfull' k last (hi ▸ since) (hi ▸ lt) (by rw [hst, hi, stamp])
        ⟨n, p, show s'.past.nextPstampI ≤ n by omega, Nat.lt_succ_self n, hp, herr⟩
    · -- the stamp being processed
      rw [hsi] at hi
      exact .marked hfull' k last (by omega) (by omega) (by rw [hst, hi])
        ⟨n, p, show s'.past.nextPstampI ≤ n by omega, Nat.lt_succ_self n, hp, herr⟩

/-- The middle of the window. -/
theorem reachHalf_marks (hidx : s.stampI = n) (hW : s.win.warmupWin ≤ n) (hp : G n s.osc.phat)
    (h : HalfPhase F G n m s) :
    Marks F G m (reachHalf (F n) (F n).RTT s) (fun m' s' => s'.stampI = n ∧
      s'.osc.phat = s.osc.phat ∧ s'.win.warmupWin = s.win.warmupWin ∧
      HalfPhase F G (n + 1) m' s') := by
  have hsi := si_of_stampI hidx
  refine Marks.ite (fun _ => ?_) fun hne => Marks.pure ⟨hidx, rfl, rfl, ?_⟩
  · refine ⟨True.intro, ?_⟩
    rintro s' hs'
    obtain rfl : initHalfWindow (F n) (F n).RTT s = s' := Option.some.inj hs'
    refine ⟨hidx, rfl, rfl, .marked (Nat.le_succ_of_le hW) s.si rfl (Nat.le_refl _) ?_ ?_ ?_⟩
    · show s.si < n + 1
      omega
    · show F n = F s.si
      rw [hsi]
    · exact ⟨n, s.osc.phat, Nat.le_of_eq hsi, Nat.lt_succ_self n, hp, Or.inl rfl⟩
  · rw [hsi] at hne
    cases h with
    | warmup more => omega
    | ahead full search unmarked half le_end =>
      exact .ahead (Nat.le_succ_of_le full) search unmarked (by omega) le_end
    | marked full k last since lt stamp err =>
      exact .marked (Nat.le_succ_of_le full) k last since (Nat.lt_succ_of_lt lt) stamp
        (err.mono (Nat.le_succ n))

/-- The end of the window. -/
theorem reachEnd_marks (hidx : s.stampI = n) (hW : s.win.warmupWin ≤ n) (hp : G n s.osc.phat)
    (h : HalfPhase F G (n + 1) m s) :
    Marks F G m (reachEnd (F n) (F n).RTT s) (fun m' s' => s'.stampI = n ∧
      s'.osc.phat = s.osc.phat ∧ s'.win.warmupWin = s.win.warmupWin ∧
      HalfPhase F G (n + 1) m' s') := by
  have hsi := si_of_stampI hidx
  have hget (h : History D) : Emits Event.Silent (historyGet h (wsub s.si 1) : Algo D D) :=
    historyGet_emits (fun _ _ _ _ => True.intro) _ _
  refine Marks.ite (fun hend => ?_) fun _ => Marks.pure ⟨hidx, rfl, rfl, h⟩
  refine Marks.bind (Marks.silent (hget _) (Q := fun m' _ => m' = m) fun _ _ => rfl) ?_
  rintro m' Df rfl
  refine Marks.bind (Marks.silent (hget _) (Q := fun m'' _ => m'' = m') fun _ _ => rfl) ?_
  rintro m'' Db rfl
  rw [hsi] at hend
  cases h with
  | warmup more => omega
  | ahead full search unmarked half le_end => omega
  | marked full k last since lt stamp err =>
    -- what was prepared is adopted
    refine ⟨⟨⟨k, last, since⟩, ?_, stamp, ?_, True.intro⟩, ?_⟩
    · show s.past.nextPstampI ≤ s.si
      omega
    · show s.past.next.Priced G (s.si + 1)
      rw [hsi]
      exact err
    · rintro s' hs'
      obtain rfl : slideHistorywin (F n) (F n).RTT Df Db s = s' := Option.some.inj hs'
      refine ⟨hidx, rfl, rfl, .marked (Nat.le_succ_of_le hW) s.si rfl (Nat.le_refl _) ?_ ?_ ?_⟩
      · show s.si < n + 1
        omega
      · show F n = F s.si
        rw [hsi]
      · exact ⟨n, s.osc.phat, Nat.le_of_eq hsi, Nat.lt_succ_self n, hp, Or.inl rfl⟩

/-- After the history window a call makes no mark. -/
theorem afterManage_silent (mp : Metaparam D) (inp : Input D) (s : AlgoState D) :
    Emits Event.Silent (do
      let s ← processRTTFull inp.stamp.RTT s
      let s ← processOWDAsymFull inp.stamp s
      let s ← updateNextPstamp inp.stamp inp.stamp.RTT s
      let s ← processPhatFull inp.stamp inp.stamp.RTT inp.qualWarning s
      let s ← processPlocalFull inp.qualWarning s
      let s ← processThetahatFull mp inp.stamp inp.qualWarning inp.Ebound s
      updatePathpenaltyFull mp inp.stamp s) := by
  have hfind : ∀ name (i oldest : Nat) (newest : Int),
      (Event.find name i oldest newest : Event D).Silent := fun _ _ _ _ => True.intro
  have hdiff : ∀ a b, (Event.diff a b : Event D).Silent := fun _ _ => True.intro
  have hpt : ∀ RTT RTThat, (Event.pointErr RTT RTThat : Event D).Silent := fun _ _ => True.intro
  refine Emits.bind (processRTTFull_emits hfind _ _) fun s1 => ?_
  refine Emits.bind (processOWDAsymFull_emits hfind _ _) fun s2 => ?_
  refine Emits.bind (updateNextPstamp_emits hpt _ _ _) fun s3 => ?_
  refine Emits.bind (processPhatFull_emits hdiff hpt _ _ _ _) fun s4 => ?_
  refine Emits.bind (processPlocalFull_emits hfind hdiff _ _) fun s5 => ?_
  refine Emits.bind (processThetahatFull_emits hfind hdiff hpt _ _ _ _ _) fun s6 => ?_
  exact updatePathpenaltyFull_emits hdiff _ _ _

/-- The full phase of stamp `n`. -/
theorem fullPhase_marks (mp : Metaparam D) (inp : Input D) (hinp : inp.stamp = F n)
    (hidx : s.stampI = n) (hW : s.win.warmupWin ≤ n) (hp : G n s.osc.phat)
    (h : HalfPhase F G n m s) :
    Marks F G m (fullPhase mp inp s) (fun m' s' => s'.stampI = n ∧
      s'.win.warmupWin ≤ n + 1 ∧ HalfPhase F G (n + 1) m' s') := by
  have hmanage : Marks F G m (manageHistorywin inp.stamp inp.stamp.RTT s) (fun m' s' =>
      s'.stampI = n ∧ s'.osc.phat = s.osc.phat ∧ s'.win.warmupWin ≤ n ∧
      HalfPhase F G (n + 1) m' s') := by
    rw [hinp]
    refine Marks.bind (reachHalf_marks hidx hW hp h) ?_
    rintro m1 s1 ⟨hidx1, hp1, hw1, h1⟩
    refine (reachEnd_marks hidx1 (hw1 ▸ hW) (hp1 ▸ hp) h1).mono ?_
    rintro m2 s2 ⟨hidx2, hp2, hw2, h2⟩
    exact ⟨hidx2, hp2.trans hp1, by rw [hw2, hw1]; exact hW, h2⟩
  refine Marks.bind hmanage ?_
  rintro m1 s1 ⟨hidx1, hp1, hw1, h1⟩
  refine Marks.silent (afterManage_silent mp inp s1) ((afterManage_carries mp inp).mono ?_)
  intro s2 hc
  rw [hinp] at hc
  have hw2 : s2.win.warmupWin ≤ n + 1 := by
    rw [hc.warmupWin]
    exact Nat.le_succ_of_le hw1
  exact ⟨hc.stampI.trans hidx1, hw2, h1.carry (si_of_stampI hidx1) (hp1 ▸ hp) hc
    (Nat.le_succ_of_le hw1)⟩

/-- What the full phase adopts as `pstamp` stays. -/
theorem fullPhase_adopts (mp : Metaparam D) (inp : Input D) (hidx : s.stampI = n) :
    Adopts n (fullPhase mp inp s) := by
  have hget (h : History D) (i : Nat) : Emits Event.Silent (historyGet h i : Algo D D) :=
    historyGet_emits (fun _ _ _ _ => True.intro) _ _
  -- only the end of the history window makes a mark, and it adopts the candidate it names
  have hmanage : Adopts n (manageHistorywin inp.stamp inp.stamp.RTT s) := by
    intro s' hres i r hmem
    obtain ⟨s1, hr1, hr2⟩ := bind_res_some.mp hres
    -- half of the window makes another event
    have hlog1 : ∀ i r, Event.slide i r ∉ (reachHalf inp.stamp inp.stamp.RTT s).log := by
      intro i r
      unfold reachHalf
      split
      · exact fun h => by cases List.mem_singleton.mp h
      · exact fun h => (nomatch h)
    have hidx1 : s1.stampI = n := by
      have hhalf : Returns (reachHalf inp.stamp inp.stamp.RTT s) fun s1 => s1.stampI = s.stampI :=
        Returns.ite (fun _ => Returns.skip fun _ => Returns.pure rfl) fun _ => Returns.pure rfl
      exact (hhalf s1 hr1).trans hidx
    have hend : Adopts n (reachEnd inp.stamp inp.stamp.RTT s1) := by
      unfold reachEnd
      split
      · refine Adopts.after (hget _ _) fun Df _ => Adopts.after (hget _ _) fun Db _ => ?_
        intro s2 hs2 i r hmem
        obtain rfl : slideHistorywin inp.stamp inp.stamp.RTT Df Db s1 = s2 := Option.some.inj hs2
        obtain ⟨rfl, rfl⟩ := Event.slide.inj (List.mem_singleton.mp hmem)
        exact ⟨si_of_stampI hidx1, rfl⟩
      · exact Adopts.silent Emits.pure
    change _ ∈ (reachHalf inp.stamp inp.stamp.RTT s >>=
      reachEnd inp.stamp inp.stamp.RTT).log at hmem
    rw [bind_log_of_some hr1] at hmem
    exact hend s' hr2 i r ((List.mem_append.mp hmem).resolve_left (hlog1 i r))
  refine Adopts.before hmanage (fun s1 => afterManage_silent mp inp s1) fun s1 => ?_
  exact (afterManage_carries mp inp).mono fun s2 hc => hc.current

/-- The warmup phase of stamp `n`. -/
theorem warmupPhase_marks (mp : Metaparam D) (st : BidirStamp D) (hidx : s.stampI = n)
    (hW : n < s.win.warmupWin) (hw : WarmWin s.win) (hsearch : s.win.jsearchWin = 0) :
    Marks F G none (warmupPhase mp st s) (fun m' s' => s'.stampI = n ∧
      HalfPhase F G (n + 1) m' s') := by
  refine Marks.silent (warmupPhase_emits (fun _ _ _ _ => True.intro) (fun _ _ => True.intro) _ _ _)
    ?_
  have halgos : Returns (warmupAlgos mp st s) (fun s' => s'.stampI = n ∧ s'.win = s.win) := by
    obtain ⟨i, owd, Df, Db, -, hpath⟩ := warmupPath_frame st st.RTT s
    unfold warmupAlgos
    rw [hpath]
    refine Returns.bind (processPhatWarmup_frame _ _) ?_
    rintro s1 ⟨ends, K, phat, perr, rfl⟩
    refine Returns.bind (processThetahatWarmup_frame _ _ _) ?_
    rintro s2 ⟨t, off, err, stt, out, rfl, -⟩
    obtain ⟨out', stt', hfin⟩ := finishWarmup_frame mp _
    rw [hfin]
    exact Returns.pure ⟨hidx, rfl⟩
  refine Returns.bind halgos ?_
  rintro s1 ⟨hidx1, hw1⟩
  have hhalf := hw.half
  have hpred : wsub s1.win.warmupWin 1 = s.win.warmupWin - 1 := by
    rw [hw1]
    exact wsub_of_le (by omega)
  refine Returns.ite (fun hlast => ?_) fun hmore => Returns.pure ⟨hidx1, ?_⟩
  · -- the full algorithms are initialised
    rw [si_of_stampI hidx1, hpred] at hlast
    refine Returns.bind (initRTTOWDAsymFull_frame _) ?_
    rintro s2 ⟨r, f, b, rfl⟩
    refine Returns.bind (initPhatFull_frame _) ?_
    rintro s3 ⟨st', perr, rfl⟩
    refine Returns.bind (initPlocalFull_frame _) ?_
    rintro s4 ⟨e, ends, ploc, rfl⟩
    refine Returns.pure ⟨hidx1, .ahead ?_ ?_ rfl ?_ ?_⟩
    · show s1.win.warmupWin ≤ n + 1
      rw [hw1]
      omega
    · show s1.win.jsearchWin = 0
      rw [hw1]
      exact hsearch
    · show n + 1 ≤ s1.win.hWin / 2
      rw [hw1]
      omega
    · show s1.win.hWin / 2 ≤ wsub s1.win.hWin 1
      rw [hw1, wsub_of_le (by omega)]
      omega
  · rw [si_of_stampI hidx1, hpred] at hmore
    refine .warmup ?_ (hw1 ▸ hw) (hw1 ▸ hsearch) rfl
    rw [hw1]
    omega

/-! ## Calls and runs -/

/-- A configuration change in warmup adjusts the windows together. -/
theorem reactToUpdate_warmup (conf : Config D) (hidx : s.stampI = n)
    (hmore : n < s.win.warmupWin) (hw : WarmWin s.win) (hsearch : s.win.jsearchWin = 0) :
    Returns (reactToUpdate conf s) (fun s' => s'.stampI = n ∧ n < s'.win.warmupWin ∧
      WarmWin s'.win ∧ s'.win.jsearchWin = 0) := by
  have hsi := si_of_stampI hidx
  refine Returns.ite (fun _ => ?_) fun _ => Returns.pure ⟨hidx, hmore, hw, hsearch⟩
  refine (updateState_cases _ _ _).mono ?_
  rintro s' ⟨poll, -, ⟨-, rfl⟩ | ⟨hge, -⟩⟩
  · have hwin : WarmWin (warmWindows s.si conf.pollPeriod
        (newWindows conf.metaparam conf.pollPeriod s.win)) :=
      warmWindows_ok conf.minPoll (newWindows_ok _ _ _) fun _ => hw.hundred
    refine ⟨hidx, ?_, hwin, hsearch⟩
    by_cases h0 : n = 0
    · have := hwin.hundred
      show n < (warmWindows s.si conf.pollPeriod _).warmupWin
      omega
    · have := lt_adjustedWarmup (show s.si ≠ 0 by omega) conf.minPoll
        (newWindows_ok conf.metaparam conf.pollPeriod s.win)
      show n < adjustedWarmup s.si conf.pollPeriod _
      omega
  · omega

/-- A configuration change in the full phase moves the half window alone. -/
theorem reactToUpdate_marks (conf : Config D) (hidx : s.stampI = n) (h : HalfPhase F G n m s)
    (hsafe : conf.algoUpdate = true → s.win.warmupWin ≤ n → s.win.jsearchWin = 0 →
      n ≤ baseHWin conf.pollPeriod / 2 ∧ baseHWin conf.pollPeriod / 2 ≤ s.win.historyEnd) :
    Marks F G m (reactToUpdate conf s) (fun m' s' => s'.stampI = n ∧ HalfPhase F G n m' s') := by
  have hsi := si_of_stampI hidx
  refine Marks.silent (reactToUpdate_emits (fun _ _ _ _ => True.intro) _ _) ?_
  -- before the end of the warmup, before the first slide, and after one
  cases h with
  | warmup more win search unmarked =>
    refine (reactToUpdate_warmup conf hidx more win search).mono ?_
    rintro s' ⟨hidx', hmore', hwin', hsearch'⟩
    exact ⟨hidx', .warmup hmore' hwin' hsearch' unmarked⟩
  | ahead full search unmarked half le_end =>
    refine Returns.ite (fun hupd => ?_) fun _ =>
      Returns.pure ⟨hidx, .ahead full search unmarked half le_end⟩
    obtain ⟨hhalf, hend⟩ := hsafe hupd full search
    refine (updateState_cases _ _ _).mono ?_
    rintro s' ⟨poll, -, ⟨hlt, -⟩ | ⟨-, v, e, rfl⟩⟩
    · omega
    · exact ⟨hidx, .ahead full search unmarked hhalf hend⟩
  | marked full k last since lt stamp err =>
    refine Returns.ite (fun _ => ?_) fun _ =>
      Returns.pure ⟨hidx, .marked full k last since lt stamp err⟩
    refine (updateState_cases _ _ _).mono ?_
    rintro s' ⟨poll, -, ⟨hlt, -⟩ | ⟨-, v, e, rfl⟩⟩
    · omega
    · exact ⟨hidx, .marked full k last since lt stamp err⟩

/-- The index and the period survive a configuration change. -/
theorem reactToUpdate_clock (conf : Config D) (s : AlgoState D) :
    Returns (reactToUpdate conf s) fun s' => s'.stampI = s.stampI ∧ s'.osc = s.osc := by
  refine Returns.ite (fun _ => ?_) fun _ => Returns.pure ⟨rfl, rfl⟩
  refine (updateState_cases _ _ _).mono ?_
  rintro s' ⟨poll, -, ⟨-, rfl⟩ | ⟨-, v, e, rfl⟩⟩
  · exact ⟨rfl, rfl⟩
  · exact ⟨rfl, rfl⟩

/-- The last statements of a call. -/
theorem finish_marks (mp : Metaparam D) (st : BidirStamp D) (hidx : s.stampI = n)
    (h : HalfPhase F G (n + 1) m s) :
    Marks F G m (do
      let s ← updateErrors mp st (copyStamp st s)
      pure (fillOutput st.RTT s)) (HalfInv F G (n + 1)) := by
  refine Marks.silent (Emits.bind (updateErrors_emits (fun _ _ => True.intro) _ _ _)
    fun _ => Emits.pure) ((finish_frame mp).mono ?_)
  rintro s' ⟨hidx', hwin, hpast⟩
  exact ⟨Nat.succ_pos n, by omega, h.congr hwin hpast⟩

/-- The phase of a stamp and the end of the call. -/
theorem rest_marks (conf : Config D) (inp : Input D) (hinp : inp.stamp = F n) (hpos : 0 < n)
    (hidx : s.stampI = n) (hp : G n s.osc.phat) (h : HalfPhase F G n m s) :
    Marks F G m (do
      let s ← phases conf inp (recordStamp inp.stamp s)
      let s ← updateErrors conf.metaparam inp.stamp (copyStamp inp.stamp s)
      pure (fillOutput inp.stamp.RTT s)) (HalfInv F G (n + 1)) := by
  have hsi := si_of_stampI hidx
  have hne : ¬ (recordStamp inp.stamp s).stampI = 0 := by
    show ¬ s.stampI = 0
    omega
  have hphases : Marks F G m (phases conf inp (recordStamp inp.stamp s)) (fun m' s' =>
      s'.stampI = n ∧ HalfPhase F G (n + 1) m' s') := by
    unfold phases
    rw [if_neg hne]
    refine Marks.ite (fun hlt => ?_) fun hge => ?_
    · change s.si < s.win.warmupWin at hlt
      -- a warmup call makes no mark
      cases h with
      | warmup more win search unmarked =>
        rw [unmarked]
        exact warmupPhase_marks (s := recordStamp inp.stamp s) _ _ hidx more win search
      | ahead full => omega
      | marked full => omega
    · change ¬ s.si < s.win.warmupWin at hge
      have hfull : s.win.warmupWin ≤ n := by omega
      exact (fullPhase_marks (s := recordStamp inp.stamp s) conf.metaparam inp hinp hidx hfull hp
        (h.congr rfl rfl)).mono fun m' s' h' => ⟨h'.1, h'.2.2⟩
  refine Marks.bind hphases ?_
  rintro m1 s1 ⟨hidx1, h1⟩
  exact finish_marks _ _ hidx1 h1

/-- A call, after the first stamp. -/
theorem RADalgoBidir_marks (conf : Config D) (inp : Input D) (hinp : inp.stamp = F n)
    (h : HalfInv F G n m s) (hp : G n s.osc.phat) (hsafe : HalfSafe conf s) :
    Marks F G m (RADalgoBidir conf inp s) (HalfInv F G (n + 1)) := by
  have hidx := h.idx
  have hpos := h.pos
  have hnext : nextStamp conf s = { s with stampI := s.stampI + 1 } :=
    nextStamp_later conf (by omega)
  unfold RADalgoBidir
  rw [hnext]
  refine Marks.bind ((reactToUpdate_marks (s := { s with stampI := s.stampI + 1 }) conf hidx
    (h.phase.congr rfl rfl) fun hupd hfull hsearch => ?_).and_returns
      (reactToUpdate_clock _ _)) ?_
  · obtain ⟨h1, h2⟩ := hsafe hupd ⟨by omega, by change s.win.warmupWin ≤ n at hfull; omega⟩ hsearch
    exact ⟨by omega, h2⟩
  · rintro m1 s1 ⟨⟨hidx1, h1⟩, -, hosc⟩
    exact rest_marks conf inp hinp hpos hidx1 (by rw [hosc]; exact hp) h1

/-- What a call adopts as `pstamp` stays until it ends. -/
theorem RADalgoBidir_adopts (conf : Config D) (inp : Input D) (hidx : s.stampI + 1 = n) :
    Adopts n (RADalgoBidir conf inp s) := by
  have hidx0 : (nextStamp conf s).stampI = n := by
    unfold nextStamp
    dsimp only
    split
    · exact hidx
    · exact hidx
  unfold RADalgoBidir
  refine Adopts.after (reactToUpdate_emits (fun _ _ _ _ => True.intro) _ _) fun s1 hr1 => ?_
  have hidx1 : (recordStamp inp.stamp s1).stampI = n :=
    (reactToUpdate_clock conf _ s1 hr1).1.trans hidx0
  refine Adopts.before ?_ (fun s2 => Emits.bind (updateErrors_emits (fun _ _ => True.intro) _ _ _)
    fun _ => Emits.pure) fun s2 => ?_
  · -- only a call of the full phase can adopt
    unfold phases
    split
    · exact Adopts.silent Emits.pure
    · split
      · exact Adopts.silent
          (warmupPhase_emits (fun _ _ _ _ => True.intro) (fun _ _ => True.intro) _ _ _)
      · exact fullPhase_adopts _ inp hidx1
  · refine (finish_frame conf.metaparam).mono ?_
    rintro s3 ⟨-, -, hpast⟩
    exact congrArg Past.current hpast

/-- The first stamp. -/
theorem RADalgoBidir_marks_first (conf : Config D) (inp : Input D) :
    Marks F G none (RADalgoBidir conf inp AlgoState.zero) (HalfInv F G 1) := by
  generalize hs : nextStamp conf (AlgoState.zero : AlgoState D) = s0
  have hidx : s0.stampI = (0 : Nat) := hs ▸ rfl
  have hwin : WarmWin s0.win := by
    have hok := newWindows_ok conf.metaparam conf.pollPeriod (AlgoState.zero : AlgoState D).win
    rw [← hs]
    exact warmWindows_ok conf.minPoll ⟨hok.offset, hok.plocal, hok.shift⟩ fun _ => Nat.le_refl 100
  have hundred := hwin.hundred
  unfold RADalgoBidir
  rw [hs]
  refine Marks.bind (Marks.silent (Q := fun m' s' => m' = none ∧ s'.stampI = ((0 : Nat) : Int) ∧
    0 < s'.win.warmupWin ∧ WarmWin s'.win ∧ s'.win.jsearchWin = 0)
    (reactToUpdate_emits (fun _ _ _ _ => True.intro) _ _)
    ((reactToUpdate_warmup conf hidx (by omega) hwin (hs ▸ rfl)).mono fun _ h => ⟨rfl, h⟩)) ?_
  rintro m1 s1 ⟨rfl, hidx1, -, hwin1, hsearch1⟩
  have hundred1 := hwin1.hundred
  have hphase : phases conf inp (recordStamp inp.stamp s1) =
      pure (initPhase conf inp.stamp (recordStamp inp.stamp s1)) := if_pos hidx1
  rw [hphase]
  exact finish_marks (s := initPhase conf inp.stamp (recordStamp inp.stamp s1)) _ _ hidx1
    (.warmup (show 1 < s1.win.warmupWin by omega) hwin1 hsearch1 rfl)

end Step

/-- Any number of calls, each of which keeps the invariant. -/
theorem runFrom_marks {F : Nat → BidirStamp D} {G : Nat → D → Prop} (cs : List (Call D)) :
    ∀ (n : Nat) (m : Option Nat) (s : AlgoState D), HalfInv F G n m s → Follows F n cs →
      (∀ k s', (runFrom (cs.take k) s).res = some s' → G (n + k) s'.osc.phat) →
      RunMeets (fun c s => HalfSafe c.conf s) cs s →
      Marks F G m (runFrom cs s) (HalfInv F G (n + cs.length)) := by
  induction cs with
  | nil => exact fun _ _ _ h _ _ _ => Marks.pure h
  | cons c cs ih =>
    intro n m s h hf hG hm
    have hstep := RADalgoBidir_marks c.conf c.inp hf.head h (hG 0 s rfl) hm.1
    refine Marks.bind (Q := fun m' s' => HalfInv F G (n + 1) m' s' ∧
      RunMeets (fun c s => HalfSafe c.conf s) cs s' ∧
      ∀ k s'', (runFrom (cs.take k) s').res = some s'' → G (n + 1 + k) s''.osc.phat)
      ⟨hstep.1, fun s' hs' => ⟨hstep.2 s' hs', hm.2 s' hs', fun k s'' hs'' => ?_⟩⟩ ?_
    · have hnext := hG (k + 1) s'' (bind_res_some.mpr ⟨s', hs', hs''⟩)
      rw [show n + (k + 1) = n + 1 + k by omega] at hnext
      exact hnext
    · rintro m' s' ⟨h', hm', hG'⟩
      rw [List.length_cons, show n + (cs.length + 1) = n + 1 + cs.length by omega]
      exact ih (n + 1) m' s' h' hf.tail hG' hm'

/-- A whole run, with the periods that are in force along it. -/
theorem run_marks {F : Nat → BidirStamp D} {G : Nat → D → Prop} (c : Call D) (cs : List (Call D))
    (hf : Follows F 0 (c :: cs))
    (hG : ∀ k s, (run ((c :: cs).take k)).res = some s → G k s.osc.phat)
    (hm : RunMeets (fun c s => HalfSafe c.conf s) (c :: cs) AlgoState.zero) :
    Marks F G none (run (c :: cs)) (HalfInv F G (cs.length + 1)) := by
  have hstep := RADalgoBidir_marks_first (F := F) (G := G) c.conf c.inp
  refine Marks.bind (Q := fun m' s' => HalfInv F G 1 m' s' ∧
    RunMeets (fun c s => HalfSafe c.conf s) cs s' ∧
    ∀ k s'', (runFrom (cs.take k) s').res = some s'' → G (1 + k) s''.osc.phat)
    ⟨hstep.1, fun s' hs' => ⟨hstep.2 s' hs', hm.2 s' hs', fun k s'' hs'' => ?_⟩⟩ ?_
  · rw [Nat.add_comm]
    exact hG (k + 1) s'' (bind_res_some.mpr ⟨s', hs', hs''⟩)
  · rintro m' s' ⟨h', hm', hG'⟩
    rw [Nat.add_comm]
    exact runFrom_marks cs 1 m' s' h' hf.tail hG' hm'

/-- In every run whose configuration changes are safe for the half window, every slide adopts
a stamp of the run, under its own index and not older than the mark before it, with an error
taken since, and the half-window initialisation comes first. What is adopted is `pstamp` when the
call returns. -/
theorem slides_of_halfSafe (cs : List (Call D))
    (hm : RunMeets (fun c s => HalfSafe c.conf s) cs AlgoState.zero) : SlidesOk cs := by
  cases cs with
  | nil => exact ⟨True.intro, fun n c s s' hc => by simp at hc⟩
  | cons c cs =>
    have hf := follows_stampsOf (c :: cs)
    refine ⟨(run_marks c cs hf (fun k s hs => ⟨s, hs, rfl⟩) hm).1, ?_⟩
    intro n c' s s' hc' hs hs'
    refine RADalgoBidir_adopts c'.conf c'.inp ?_ s' hs'
    cases n with
    | zero =>
      obtain rfl : AlgoState.zero = s := Option.some.inj hs
      rfl
    | succ n =>
      -- the calls before this one are a run themselves
      obtain ⟨hlt, -⟩ := List.getElem?_eq_some_iff.mp hc'
      have hsplit := List.take_append_drop n cs
      have hmtake := (RunMeets.append (c :: cs.take n) (cs.drop n) (AlgoState.zero : AlgoState D)
        (by rw [List.cons_append, hsplit]; exact hm)).1
      have hf' : Follows (stampsOf (c :: cs)) 0 ((c :: cs.take n) ++ cs.drop n) := by
        rw [List.cons_append, hsplit]
        exact hf
      have hidx := ((run_marks c (cs.take n) hf'.left (G := fun _ _ => True)
        (fun _ _ _ => True.intro) hmtake).2 s hs).idx
      rw [List.length_take, Nat.min_eq_left (by rw [List.length_cons] at hlt; omega)] at hidx
      exact hidx

end RADclock
