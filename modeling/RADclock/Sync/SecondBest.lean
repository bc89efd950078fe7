import RADclock.Sync.ShiftWindows

/-!
# The second best error of the offset window

The clock error bound starts from the least error among the packets of the offset window other than
the best one. The loop that is to find it takes the first packet it does not skip as its start. It
means to recognise that packet by its index, but when the best packet is the newest, nothing is
recognised, and when the best is packet `1`, two packets are.

- `runningSecond`: the loop, on the errors of the packets.
- `SecondBest`: what it is to find.
- `Recovers`: when it does all the same.
-/

namespace RADclock

open Lib Lib.Exec

/-! ## The loop on errors -/

section Loop

variable {D : Type} [Arith D] {num : D → Prop} {E : Nat → D} {si jbest jmin : Nat} {e v : D}

/-- The values on which `<` is a strict linear order, and no others are below anything. -/
structure OrderedNumbers (num : D → Prop) : Prop extends Ordered num where
  below : ∀ a b : D, a < b → num a

/-- The floats that are numbers are ordered, with their operations. -/
theorem orderedNumbers_float : OrderedNumbers IsNumber where
  toOrdered := ordered_float
  below := fun _ _ h => (Float.lt_iff_rank.mp h).1

/-- The second loop of `process_thetahat_warmup` and `process_thetahat_full`, from packet `j` back
to `jmin`, where packet `j` has the error `E j`. -/
def runningSecond (E : Nat → D) (si jbest jmin : Nat) : Nat → D → D
  | 0, e => e
  | j + 1, e =>
    if j + 1 < jmin then e
    else if j + 1 = jbest then runningSecond E si jbest jmin j e
    else
      runningSecond E si jbest jmin j
        (if j + 1 = si ∨ (jbest = 1 ∧ j + 1 = wsub si 1) then E (j + 1)
          else if E (j + 1) < e then E (j + 1) else e)

/-- The packet that the first loop records, from packet `j` back to `jmin`. -/
def bestBack (E : Nat → D) (jmin : Nat) : Nat → Nat → Nat
  | 0, b => b
  | j + 1, b => if j + 1 < jmin then b else bestBack E jmin j (if E (j + 1) < E b then j + 1 else b)

/-- The best packet of the window `[jmin, si]`. -/
def bestPacket (E : Nat → D) (jmin si : Nat) : Nat := bestBack E jmin (si - 1) si

/-- `v` is the least error of the window `[jmin, si]` without packet `jbest`. -/
structure SecondBest (E : Nat → D) (jmin si jbest : Nat) (v : D) : Prop where
  attained : ∃ j, jmin ≤ j ∧ j ≤ si ∧ j ≠ jbest ∧ v = E j
  least : ∀ j, jmin ≤ j → j ≤ si → j ≠ jbest → ¬ E j < v

/-- When the loop, starting from `e`, finds the second best error.

If the best packet is the newest, `e` takes part: there has to be an error below it, or equal to it.
If it is packet `1`, the newest packet is forgotten: there has to be another not above it. -/
structure Recovers (num : D → Prop) (E : Nat → D) (jmin si jbest : Nat) (e : D) : Prop where
  newest : jbest = si → ∃ j, jmin ≤ j ∧ j < si ∧ (E j < e ∨ E j = e)
  first : jbest = 1 → 3 ≤ si → ∃ j, 2 ≤ j ∧ j < si ∧ ¬ E si < E j ∧ (j = si - 1 ∨ num (E j))

/-- The running minimum of the errors from packet `j` back, and of `e`. -/
structure RunningMin (E : Nat → D) (jmin j jbest : Nat) (e v : D) : Prop where
  attained : v = e ∨ ∃ k, jmin ≤ k ∧ k ≤ j ∧ k ≠ jbest ∧ v = E k ∧ E k < e
  least : ∀ k, jmin ≤ k → k ≤ j → k ≠ jbest → ¬ E k < v

/-- No number is below itself. -/
theorem lt_irrefl_of (ho : Ordered num) (a : D) : ¬ a < a :=
  of_decide_eq_false (ho.strict.irrefl a)

/-- The order is transitive. -/
theorem lt_trans_of (ho : Ordered num) {a b c : D} (h : a < b) (h' : b < c) : a < c :=
  of_decide_eq_true (ho.strict.trans a b c (decide_eq_true h) (decide_eq_true h'))

/-- Nothing seen so far is below the running minimum. -/
theorem RunningMin.not_lt (ho : Ordered num) {j : Nat} (h : RunningMin E jmin j jbest e v) :
    ¬ e < v := by
  intro hlt
  rcases h.attained with rfl | ⟨k, -, -, -, rfl, hk⟩
  · exact lt_irrefl_of ho _ hlt
  · exact lt_irrefl_of ho _ (lt_trans_of ho hlt hk)

/-- Past the packets that may restart it, the loop is a running minimum. -/
theorem runningSecond_min (ho : Ordered num) (hpos : 1 ≤ jmin) :
    ∀ (j : Nat) (e : D), j < si → (jbest = 1 → j < si - 1 ∨ j = 1) →
      RunningMin E jmin j jbest e (runningSecond E si jbest jmin j e) := by
  intro j
  induction j with
  | zero => exact fun e _ _ => ⟨Or.inl rfl, fun k h1 h2 _ => absurd hpos (by omega)⟩
  | succ j ih =>
    intro e hj hfirst
    have hrest := fun e' => ih e' (by omega) fun h => by
      have := hfirst h
      omega
    unfold runningSecond
    by_cases hmin : j + 1 < jmin
    · rw [if_pos hmin]
      exact ⟨Or.inl rfl, fun k h1 h2 _ => absurd h1 (by omega)⟩
    rw [if_neg hmin]
    by_cases hbest : j + 1 = jbest
    · rw [if_pos hbest]
      have h := hrest e
      refine ⟨h.attained.imp_right ?_, fun k h1 h2 h3 => h.least k h1 (by omega) h3⟩
      rintro ⟨k, h1, h2, h3, h4⟩
      exact ⟨k, h1, by omega, h3, h4⟩
    rw [if_neg hbest, if_neg (by rw [wsub_of_le (by omega)]; omega)]
    by_cases hlt : E (j + 1) < e
    · rw [if_pos hlt]
      have h := hrest (E (j + 1))
      refine ⟨Or.inr ?_, fun k h1 h2 h3 => ?_⟩
      · rcases h.attained with heq | ⟨k, h1, h2, h3, h4, h5⟩
        · exact ⟨j + 1, by omega, Nat.le_refl _, hbest, heq, hlt⟩
        · exact ⟨k, h1, by omega, h3, h4, lt_trans_of ho h5 hlt⟩
      · rcases Nat.lt_or_eq_of_le h2 with hk | rfl
        · exact h.least k h1 (by omega) h3
        · exact h.not_lt ho
    · rw [if_neg hlt]
      have h := hrest e
      refine ⟨h.attained.imp_right ?_, fun k h1 h2 h3 => ?_⟩
      · rintro ⟨k, h1, h2, h3, h4⟩
        exact ⟨k, h1, by omega, h3, h4⟩
      · rcases Nat.lt_or_eq_of_le h2 with hk | rfl
        · exact h.least k h1 (by omega) h3
        · -- not below `e`, and the result is not above it
          intro hlow
          rcases h.attained with heq | ⟨k, -, -, -, heq, hk⟩
          · rw [heq] at hlow
            exact hlt hlow
          · rw [heq] at hlow
            exact hlt (lt_trans_of ho hlow hk)

/-- Where the loop goes from the newest packet. -/
theorem runningSecond_start (hsi : 1 ≤ si) (hmin : jmin ≤ si) :
    runningSecond E si jbest jmin si e =
      runningSecond E si jbest jmin (si - 1) (if si = jbest then e else E si) := by
  obtain ⟨m, rfl⟩ : ∃ m, si = m + 1 := ⟨si - 1, by omega⟩
  rw [Nat.add_sub_cancel]
  conv => lhs; unfold runningSecond
  rw [if_neg (Nat.not_lt.mpr hmin)]
  by_cases hbest : m + 1 = jbest
  · rw [if_pos hbest, if_pos hbest]
  · rw [if_neg hbest, if_neg hbest, if_pos (Or.inl rfl)]

/-- The best packet is the newest: the start takes part. -/
theorem secondBest_newest (ho : Ordered num) (hpos : 1 ≤ jmin) (htwo : jmin < si) :
    SecondBest E jmin si si (runningSecond E si si jmin si e) ↔
      ∃ j, jmin ≤ j ∧ j < si ∧ (E j < e ∨ E j = e) := by
  rw [runningSecond_start (by omega) (Nat.le_of_lt htwo), if_pos rfl]
  have h : RunningMin E jmin (si - 1) si e (runningSecond E si si jmin (si - 1) e) :=
    runningSecond_min ho hpos (si - 1) e (by omega) fun h1 => absurd htwo (by omega)
  generalize runningSecond E si si jmin (si - 1) e = v at h
  constructor
  · rintro ⟨⟨j, h1, h2, h3, hv⟩, -⟩
    rcases h.attained with heq | ⟨k, h4, h5, -, -, hk⟩
    · exact ⟨j, h1, by omega, Or.inr (hv.symm.trans heq)⟩
    · exact ⟨k, h4, by omega, Or.inl hk⟩
  · rintro ⟨j, h1, h2, hj⟩
    refine ⟨?_, fun k h3 h4 h5 => h.least k h3 (by omega) h5⟩
    rcases h.attained with heq | ⟨k, h4, h5, h6, hv, -⟩
    · rcases hj with hlt | hj
      · rw [← heq] at hlt
        exact absurd hlt (h.least j h1 (by omega) (by omega))
      · exact ⟨j, h1, by omega, by omega, heq.trans hj.symm⟩
    · exact ⟨k, h4, by omega, h6, hv⟩

/-- The best packet is packet `1`, and not one of the two newest: the newest is forgotten. -/
theorem secondBest_first (ho : OrderedNumbers num) (hthree : 3 ≤ si) :
    SecondBest E 1 si 1 (runningSecond E si 1 1 si e) ↔
      ∃ j, 2 ≤ j ∧ j < si ∧ ¬ E si < E j ∧ (j = si - 1 ∨ num (E j)) := by
  obtain ⟨m, rfl⟩ : ∃ m, si = m + 3 := ⟨si - 3, by omega⟩
  have hagain : runningSecond E (m + 3) 1 1 (m + 2) (E (m + 3)) =
      runningSecond E (m + 3) 1 1 (m + 1) (E (m + 2)) := by
    conv => lhs; unfold runningSecond
    rw [if_neg (by omega), if_neg (by omega),
      if_pos (Or.inr ⟨rfl, (wsub_of_le (show 1 ≤ m + 3 by omega)).symm⟩)]
  rw [runningSecond_start (by omega) (by omega), if_neg (by omega),
    show m + 3 - 1 = m + 2 by omega, hagain]
  have h : RunningMin E 1 (m + 1) 1 (E (m + 2)) (runningSecond E (m + 3) 1 1 (m + 1) (E (m + 2))) :=
    runningSecond_min ho.toOrdered (Nat.le_refl 1) (m + 1) (E (m + 2)) (by omega)
      fun _ => Or.inl (by omega)
  generalize runningSecond E (m + 3) 1 1 (m + 1) (E (m + 2)) = v at h
  have hleast : ∀ j, 2 ≤ j → j < m + 3 → ¬ E j < v := by
    intro j h1 h2
    rcases Nat.lt_or_eq_of_le (Nat.le_of_lt_succ h2) with hj | rfl
    · exact h.least j (by omega) (by omega) (by omega)
    · exact h.not_lt ho.toOrdered
  have hattained : ∃ j, 2 ≤ j ∧ j < m + 3 ∧ v = E j ∧ (j = m + 2 ∨ num (E j)) := by
    rcases h.attained with heq | ⟨k, h1, h2, h3, heq, hk⟩
    · exact ⟨m + 2, by omega, by omega, heq, Or.inl rfl⟩
    · exact ⟨k, by omega, by omega, heq, Or.inr (ho.below _ _ hk)⟩
  constructor
  · rintro ⟨-, hmin⟩
    obtain ⟨j, h1, h2, rfl, hj⟩ := hattained
    exact ⟨j, h1, h2, hmin (m + 3) (by omega) (Nat.le_refl _) (by omega), hj⟩
  · rintro ⟨j, h1, h2, hnot, hj⟩
    obtain ⟨k, h3, h4, hv, -⟩ := hattained
    refine ⟨⟨k, by omega, by omega, by omega, hv⟩, fun i h5 h6 h7 => ?_⟩
    rcases Nat.lt_or_eq_of_le h6 with hi | rfl
    · exact hleast i (by omega) hi
    intro hlow
    rcases hj with rfl | hnum
    · -- the packet before the newest is where the loop started again
      rcases h.attained with heq | ⟨k', -, -, -, heq, hk'⟩
      · rw [heq] at hlow
        exact hnot hlow
      · rw [heq] at hlow
        exact hnot (lt_trans_of ho.toOrdered hlow hk')
    · rcases ho.between _ _ _ hnum hlow with hlt | hlt
      · exact hnot hlt
      · exact hleast j h1 h2 hlt

/-- Neither: the loop starts from the newest packet. -/
theorem secondBest_started (ho : Ordered num) (hpos : 1 ≤ jmin) (htwo : jmin < si)
    (hnewest : jbest ≠ si) (hfirst : jbest = 1 → si = 2) :
    SecondBest E jmin si jbest (runningSecond E si jbest jmin si e) := by
  rw [runningSecond_start (by omega) (Nat.le_of_lt htwo), if_neg (Ne.symm hnewest)]
  have h : RunningMin E jmin (si - 1) jbest (E si)
      (runningSecond E si jbest jmin (si - 1) (E si)) :=
    runningSecond_min ho hpos (si - 1) (E si) (by omega) fun h1 => Or.inr (by
      have := hfirst h1
      omega)
  refine ⟨?_, fun j h1 h2 h3 => ?_⟩
  · rcases h.attained with heq | ⟨k, h1, h2, h3, heq, -⟩
    · exact ⟨si, Nat.le_of_lt htwo, Nat.le_refl si, Ne.symm hnewest, heq⟩
    · exact ⟨k, h1, by omega, h3, heq⟩
  · rcases Nat.lt_or_eq_of_le h2 with hj | rfl
    · exact h.least j h1 (by omega) h3
    · exact h.not_lt ho

/-- The loop finds the second best error if and only if it recovers from its start. -/
theorem secondBest_iff (ho : OrderedNumbers num) (hpos : 1 ≤ jmin) (htwo : jmin < si)
    (hleft : jmin ≤ jbest) :
    SecondBest E jmin si jbest (runningSecond E si jbest jmin si e) ↔
      Recovers num E jmin si jbest e := by
  by_cases hnewest : jbest = si
  · subst hnewest
    rw [secondBest_newest ho.toOrdered hpos htwo]
    exact ⟨fun h => ⟨fun _ => h, fun h1 => absurd htwo (by omega)⟩, fun h => h.newest rfl⟩
  by_cases hfirst : jbest = 1 ∧ 3 ≤ si
  · obtain ⟨rfl, hthree⟩ := hfirst
    obtain rfl : jmin = 1 := Nat.le_antisymm hleft hpos
    rw [secondBest_first ho hthree]
    exact ⟨fun h => ⟨fun h1 => absurd h1 hnewest, fun _ _ => h⟩, fun h => h.first rfl hthree⟩
  · refine iff_of_true (secondBest_started ho.toOrdered hpos htwo hnewest fun h1 => ?_)
      ⟨fun h1 => absurd h1 hnewest, fun h1 h3 => absurd ⟨h1, h3⟩ hfirst⟩
    have : ¬ 3 ≤ si := fun h3 => hfirst ⟨h1, h3⟩
    omega

end Loop

/-! ## The loops of the code -/

section Code

variable {D : Type} [Arith D] {num : D → Prop} {mp : Metaparam D} {s : AlgoState D}
  {st : BidirStamp D} {jmin : Nat}

/-- The error of packet `j` against the current RTThat, aged to the stamp `st`. -/
def packetErr (mp : Metaparam D) (st : BidirStamp D) (s : AlgoState D) (j : Nat) : D :=
  match (rttAndStamp s j).res with
  | some p => errET mp s p.1 s.rtt.RTThat (st.Tf - p.2.Tf)
  | none => 0

/-- The same, against the RTThat recorded with the packet. -/
def recordedErr (mp : Metaparam D) (st : BidirStamp D) (s : AlgoState D) (j : Nat) : D :=
  match (fullPoint s j).res with
  | some p => errET mp s p.1 p.2.1 (st.Tf - p.2.2.Tf)
  | none => 0

/-- The error of a packet from its RTT and its stamp. -/
theorem rttAndStamp_err (mp : Metaparam D) (st : BidirStamp D) (j : Nat) :
    Returns (rttAndStamp s j) fun p =>
    errET mp s p.1 s.rtt.RTThat (st.Tf - p.2.Tf) = packetErr mp st s j := by
  intro p hp
  unfold packetErr
  rw [hp]

/-- The error of a packet from the minimum recorded with it. -/
theorem fullPoint_err (mp : Metaparam D) (st : BidirStamp D) (j : Nat) :
    Returns (fullPoint s j) fun p =>
    errET mp s p.1 p.2.1 (st.Tf - p.2.2.Tf) = recordedErr mp st s j := by
  intro p hp
  unfold recordedErr
  rw [hp]

omit [Arith D] in
/-- The difference as it is taken. -/
theorem counterDiff_value (later earlier : VCounter) :
    Returns (counterDiff later earlier : Algo D VCounter) fun d => d = later - earlier :=
  Returns.skip fun _ => Returns.pure rfl

/-- The loop finds the best of the packets but one. -/
theorem secondLoop_value {point : Bool} {jbest : Nat} : ∀ (j : Nat) (e : D),
    Returns (secondLoop point mp s st jbest jmin j e) fun v =>
      v = runningSecond (packetErr mp st s) s.si jbest jmin j e := by
  intro j
  induction j with
  | zero => exact fun e => Returns.pure rfl
  | succ j ih =>
    intro e
    unfold secondLoop runningSecond
    by_cases hmin : j + 1 < jmin
    · rw [if_pos hmin, if_pos hmin]
      exact Returns.pure rfl
    rw [if_neg hmin, if_neg hmin]
    by_cases hbest : j + 1 = jbest
    · rw [if_pos hbest, if_pos hbest]
      exact ih e
    rw [if_neg hbest, if_neg hbest]
    refine Returns.bind (rttAndStamp_err mp st (j + 1)) fun p hp => Returns.skip fun _ => ?_
    refine Returns.bind (counterDiff_value _ _) fun d hd => ?_
    subst hd
    rw [← hp]
    exact ih _

/-- The record of the best packet, once the first loop has started. -/
def Records (E : Nat → D) (a : ThetaAcc D) : Prop := a.minET = E a.jbest

/-- One packet more in the weighted sum. -/
theorem ThetaAcc.add_records {E : Nat → D} {j : Nat} {a : ThetaAcc D} (ha : Records E a)
    (hj : j ≠ s.si) (th : D) : Records E (a.add s j (E j) th) ∧
      (a.add s j (E j) th).jbest = if E j < E a.jbest then j else a.jbest := by
  have hiff : (j = s.si ∨ E j < a.minET) ↔ E j < E a.jbest := by
    rw [ha]
    exact ⟨fun h => h.resolve_left hj, Or.inr⟩
  unfold Records
  by_cases hlt : E j < E a.jbest
  · have hbest := hiff.mpr hlt
    rw [if_pos hlt]
    exact ⟨(if_pos hbest).trans (congrArg E (if_pos hbest).symm), if_pos hbest⟩
  · have hbest := mt hiff.mp hlt
    rw [if_neg hlt]
    refine ⟨(if_neg hbest).trans (ha.trans (congrArg E (if_neg hbest).symm)), if_neg hbest⟩

/-- The newest packet is recorded whatever its error. -/
theorem ThetaAcc.add_newest {E : Nat → D} {j : Nat} (a : ThetaAcc D) (hj : j = s.si) (th : D) :
    Records E (a.add s j (E j) th) ∧ (a.add s j (E j) th).jbest = j := by
  have hbest : j = s.si ∨ E j < a.minET := Or.inl hj
  exact ⟨(if_pos hbest).trans (congrArg E (if_pos hbest).symm), if_pos hbest⟩

/-- The loop of the warmup finds the best packet. -/
theorem warmupLoop_back (mp : Metaparam D) (st : BidirStamp D) (jmin : Nat) :
    ∀ (j : Nat) (a : ThetaAcc D), j < s.si → Records (packetErr mp st s) a →
    Returns (warmupLoop mp s st jmin j a) fun r =>
      r.jbest = bestBack (packetErr mp st s) jmin j a.jbest ∧ Records (packetErr mp st s) r := by
  intro j
  induction j with
  | zero => exact fun a _ ha => Returns.pure ⟨rfl, ha⟩
  | succ j ih =>
    intro a hj ha
    unfold warmupLoop bestBack
    by_cases hmin : j + 1 < jmin
    · rw [if_pos hmin, if_pos hmin]
      exact Returns.pure ⟨rfl, ha⟩
    rw [if_neg hmin, if_neg hmin]
    refine Returns.bind (rttAndStamp_err mp st (j + 1)) fun p hp => ?_
    refine Returns.bind (counterDiff_value _ _) fun d hd => Returns.skip fun th => ?_
    subst hd
    rw [hp]
    obtain ⟨hrec, hbest⟩ := ThetaAcc.add_records ha (Nat.ne_of_lt hj) th
    rw [← hbest]
    exact ih _ (by omega) hrec

/-- So does the loop of the full phase. -/
theorem fullLoop_back (mp : Metaparam D) (st : BidirStamp D) (jmin : Nat) :
    ∀ (j : Nat) (a : ThetaAcc D), j < s.si → Records (recordedErr mp st s) a →
    Returns (fullLoop mp s st jmin j a) fun r =>
      r.jbest = bestBack (recordedErr mp st s) jmin j a.jbest := by
  intro j
  induction j with
  | zero => exact fun a _ _ => Returns.pure rfl
  | succ j ih =>
    intro a hj ha
    unfold fullLoop bestBack
    by_cases hmin : j + 1 < jmin
    · rw [if_pos hmin, if_pos hmin]
      exact Returns.pure rfl
    rw [if_neg hmin, if_neg hmin]
    refine Returns.skip fun g => Returns.bind (fullPoint_err mp st (j + 1)) fun p hp => ?_
    refine Returns.skip fun _ => ?_
    refine Returns.bind (counterDiff_value _ _) fun d hd => Returns.skip fun th => ?_
    subst hd
    rw [hp]
    generalize (if s.ploc.plocalProblem = true then th else _) = th'
    obtain ⟨hrec, hbest⟩ := ThetaAcc.add_records (a := { a with gapsize := g }) ha
      (Nat.ne_of_lt hj) th'
    have hrest := ih _ (by omega) hrec
    rw [hbest] at hrest
    exact hrest

/-- The newest packet is recorded first. -/
theorem warmupLoop_best (hmin : jmin ≤ s.si) (hsi : 1 ≤ s.si) (a : ThetaAcc D) :
    Returns (warmupLoop mp s st jmin s.si a) fun r =>
      r.jbest = bestPacket (packetErr mp st s) jmin s.si ∧ Records (packetErr mp st s) r := by
  obtain ⟨m, hm⟩ : ∃ m, s.si = m + 1 := ⟨s.si - 1, by omega⟩
  unfold bestPacket
  rw [hm, Nat.add_sub_cancel]
  rw [hm] at hmin
  unfold warmupLoop
  rw [if_neg (Nat.not_lt.mpr hmin)]
  refine Returns.bind (rttAndStamp_err mp st (m + 1)) fun p hp => ?_
  refine Returns.bind (counterDiff_value _ _) fun d hd => Returns.skip fun th => ?_
  subst hd
  rw [hp]
  obtain ⟨hrec, hbest⟩ := ThetaAcc.add_newest (E := packetErr mp st s) a hm.symm th
  have hrest := warmupLoop_back mp st jmin m _ (by omega) hrec
  rw [hbest] at hrest
  exact hrest

/-- From the newest packet back. -/
theorem fullLoop_best (hmin : jmin ≤ s.si) (hsi : 1 ≤ s.si) (a : ThetaAcc D) :
    Returns (fullLoop mp s st jmin s.si a) fun r =>
      r.jbest = bestPacket (recordedErr mp st s) jmin s.si := by
  obtain ⟨m, hm⟩ : ∃ m, s.si = m + 1 := ⟨s.si - 1, by omega⟩
  unfold bestPacket
  rw [hm, Nat.add_sub_cancel]
  rw [hm] at hmin
  unfold fullLoop
  rw [if_neg (Nat.not_lt.mpr hmin)]
  refine Returns.skip fun g => Returns.bind (fullPoint_err mp st (m + 1)) fun p hp => ?_
  refine Returns.skip fun _ => ?_
  refine Returns.bind (counterDiff_value _ _) fun d hd => Returns.skip fun th => ?_
  subst hd
  rw [hp]
  generalize (if s.ploc.plocalProblem = true then th else _) = th'
  obtain ⟨hrec, hbest⟩ := ThetaAcc.add_newest (E := recordedErr mp st s) { a with gapsize := g }
    hm.symm th'
  have hrest := fullLoop_back mp st jmin m _ (by omega) hrec
  rw [hbest] at hrest
  exact hrest

omit [Arith D] in
/-- The best packet is one of the window. -/
theorem bestBack_mem [Arith D] {E : Nat → D} {si : Nat} : ∀ j b, j ≤ si → jmin ≤ b → b ≤ si →
    jmin ≤ bestBack E jmin j b ∧ bestBack E jmin j b ≤ si := by
  intro j
  induction j with
  | zero => exact fun b _ h1 h2 => ⟨h1, h2⟩
  | succ j ih =>
    intro b hj h1 h2
    unfold bestBack
    by_cases hmin : j + 1 < jmin
    · rw [if_pos hmin]
      exact ⟨h1, h2⟩
    rw [if_neg hmin]
    split
    · exact ih _ (by omega) (by omega) hj
    · exact ih _ (by omega) h1 h2

/-- It is not before the start of the window. -/
theorem jmin_le_bestPacket {E : Nat → D} {si : Nat} (h : jmin ≤ si) :
    jmin ≤ bestPacket E jmin si :=
  (bestBack_mem (si - 1) si (Nat.sub_le _ _) h (Nat.le_refl si)).1

/-! ## The recorded bound -/

/-- The first loop of `process_thetahat_warmup`. -/
def warmupBest (mp : Metaparam D) (st : BidirStamp D) (s : AlgoState D) : Algo D (ThetaAcc D) :=
  warmupLoop mp (stepTransition (recordTheta (naiveTheta s st) s)) st
    (warmupJmin (recordTheta (naiveTheta s st) s)) s.si ⟨0, 0, 0, 0, 0⟩

/-- The first loop of `process_thetahat_full`. -/
def fullBest (mp : Metaparam D) (st : BidirStamp D) (s : AlgoState D) : Algo D (ThetaAcc D) := do
  let d0 ← counterDiff st.Tf s.stamp.Tf
  fullLoop mp (stepTransition (recordTheta (naiveTheta s st) s)) st
    (fullJmin (recordTheta (naiveTheta s st) s)) s.si ⟨0, 0, 0, 0, s.osc.phat * vcD d0⟩

/-- The quality is good, and the estimate one of this stamp: in warmup the bound is recorded. -/
def GoodQuality (s : AlgoState D) (a : ThetaAcc D) : Prop :=
  a.minET < s.thres.EoffsetQual ∧ (a.wsum == 0) = false

/-- The estimate passes the sanity check as well. -/
def PassesSanity (st : BidirStamp D) (qualWarning : Bool) (s : AlgoState D)
    (a : ThetaAcc D) : Prop :=
  ¬ (s.thres.EoffsetSanityMin + s.thres.EoffsetSanityRate *
    Arith.cmax a.gapsize (s.osc.phat * vcD (st.Tf - s.off.thetastamp.Tf)) <
      Arith.fabs (s.off.thetahat - a.thetahat / a.wsum) ∨ qualWarning = true)

/-- What `process_thetahat_warmup` is to record, for a window `[jmin, si]` of at least two
stamps. -/
def WarmupSecondBest (mp : Metaparam D) (st : BidirStamp D) (s : AlgoState D) (e : D) : Prop :=
  SecondBest (packetErr mp st s) (warmupJmin (recordTheta (naiveTheta s st) s)) s.si
    (bestPacket (packetErr mp st s) (warmupJmin (recordTheta (naiveTheta s st) s)) s.si) e

/-- What `process_thetahat_full` is to record. -/
def FullSecondBest (mp : Metaparam D) (st : BidirStamp D) (s : AlgoState D) (e : D) : Prop :=
  SecondBest (packetErr mp st s) (fullJmin (recordTheta (naiveTheta s st) s)) s.si
    (bestPacket (recordedErr mp st s) (fullJmin (recordTheta (naiveTheta s st) s)) s.si) e

/-- The first stamp is never in the window of the warmup. -/
theorem one_le_warmupJmin (s : AlgoState D) : 1 ≤ warmupJmin s :=
  Nat.le_trans (Nat.le_max_left _ _) (Nat.le_max_left _ _)

/-- Nor in that of the full phase. -/
theorem one_le_fullJmin (s : AlgoState D) : 1 ≤ fullJmin s := by
  refine Nat.le_trans (Nat.le_trans ?_ (Nat.le_max_left _ _)) (Nat.le_max_left _ _)
  split <;> omega

/-- With good packets the bound is the error of the second best. -/
theorem judgeWarmup_good {a : ThetaAcc D} (e g : D) (h : GoodQuality s a) :
    (judgeWarmup st a e g s).err.EboundMinLast = e := by
  unfold judgeWarmup
  rw [if_pos h.1]
  simp only [h.2, Bool.false_eq_true, if_false]
  split <;> rfl

/-- With good packets the candidate is the weighted mean. -/
theorem candidateTheta_good {a : ThetaAcc D} (h : GoodQuality s a) :
    candidateTheta a s = a.thetahat / a.wsum := by
  unfold candidateTheta
  rw [if_pos h.1, h.2]
  rfl

/-- A sane candidate is adopted with its bound. -/
theorem judgeSanity_good {a : ThetaAcc D} {q : Bool} (e : D) {g th : D} (h : GoodQuality s a)
    (hsane : ¬ (s.thres.EoffsetSanityMin + s.thres.EoffsetSanityRate * g <
      Arith.fabs (s.off.thetahat - th) ∨ q = true)) :
    (judgeSanity st a th e g q s).err.EboundMinLast = e := by
  unfold judgeSanity
  rw [if_neg hsane]
  dsimp only
  rw [if_pos (show a.minET < _ ∧ (a.wsum == 0) = false from h)]
  rfl

/-- When `process_thetahat_warmup` records the second best error. -/
def WarmupRecovers (num : D → Prop) (mp : Metaparam D) (st : BidirStamp D)
    (s : AlgoState D) : Prop :=
  Recovers num (packetErr mp st s) (warmupJmin (recordTheta (naiveTheta s st) s)) s.si
    (bestPacket (packetErr mp st s) (warmupJmin (recordTheta (naiveTheta s st) s)) s.si) 0

/-- When `process_thetahat_full` does, with `Ebound` in its uninitialised local of that name. -/
def FullRecovers (num : D → Prop) (mp : Metaparam D) (st : BidirStamp D) (Ebound : D)
    (s : AlgoState D) : Prop :=
  Recovers num (packetErr mp st s) (fullJmin (recordTheta (naiveTheta s st) s)) s.si
    (bestPacket (recordedErr mp st s) (fullJmin (recordTheta (naiveTheta s st) s)) s.si) Ebound

/-- The result of a computation is that of its first run. -/
theorem returns_same {α ε : Type} {m : Exec ε α} {a : α} (h : m.res = some a) :
    Returns m fun a' => a' = a := fun _ h' => Option.some.inj (h'.symm.trans h)

/-- The bound after a warmup stamp. -/
theorem warmup_secondBest (ho : OrderedNumbers num) (mp : Metaparam D) (st : BidirStamp D)
    (s : AlgoState D) : Returns (warmupBest mp st s) fun a =>
      warmupJmin (recordTheta (naiveTheta s st) s) < s.si → GoodQuality s a →
        Returns (processThetahatWarmup mp st s) fun s' =>
          (WarmupSecondBest mp st s s'.err.EboundMinLast ↔ WarmupRecovers num mp st s) := by
  intro a ha hwin hgood
  have hpos := one_le_warmupJmin (recordTheta (naiveTheta s st) s)
  have hbest : a.jbest = bestPacket (packetErr mp st s)
      (warmupJmin (recordTheta (naiveTheta s st) s)) s.si :=
    (warmupLoop_best (s := stepTransition (recordTheta (naiveTheta s st) s)) (Nat.le_of_lt hwin)
      (show 1 ≤ s.si by omega) _ a ha).1
  refine Returns.bind (returns_same ha) fun a' ha' => ?_
  subst ha'
  refine Returns.bind (secondLoop_value _ _) fun e he => ?_
  refine Returns.skip fun d => Returns.skip fun best => Returns.pure ?_
  have hbound (g : D) : (judgeWarmup st a' e g
      (stepTransition (recordTheta (naiveTheta s st) s))).err.EboundMinLast = e :=
    judgeWarmup_good e g hgood
  refine (iff_of_eq (congrArg (WarmupSecondBest mp st s) (hbound _))).trans ?_
  rw [he, hbest]
  exact secondBest_iff ho hpos hwin (jmin_le_bestPacket (Nat.le_of_lt hwin))

/-- The bound after a stamp of the full phase. -/
theorem full_secondBest (ho : OrderedNumbers num) (mp : Metaparam D) (st : BidirStamp D) (q : Bool)
    (Ebound : D) (s : AlgoState D) : Returns (fullBest mp st s) fun a =>
      fullJmin (recordTheta (naiveTheta s st) s) < s.si → GoodQuality s a → PassesSanity st q s a →
        Returns (processThetahatFull mp st q Ebound s) fun s' =>
          (FullSecondBest mp st s s'.err.EboundMinLast ↔ FullRecovers num mp st Ebound s) := by
  intro a ha hwin hgood hsane
  have hpos := one_le_fullJmin (recordTheta (naiveTheta s st) s)
  obtain ⟨d0, hd0, ha⟩ := bind_res_some.mp ha
  -- the first pass ends on the best packet of the window
  have hbest : a.jbest = bestPacket (recordedErr mp st s)
      (fullJmin (recordTheta (naiveTheta s st) s)) s.si :=
    fullLoop_best (s := stepTransition (recordTheta (naiveTheta s st) s)) (Nat.le_of_lt hwin)
      (show 1 ≤ s.si by omega) _ a ha
  refine Returns.bind (returns_same hd0) fun d0' hd0' => ?_
  subst hd0'
  refine Returns.bind (returns_same ha) fun a' ha' => ?_
  subst ha'
  -- the second pass gives the error the quality is judged by
  refine Returns.bind (secondLoop_value _ _) fun e he => ?_
  have htheta : candidateTheta a' (stepTransition (recordTheta (naiveTheta s st) s)) =
      a'.thetahat / a'.wsum := candidateTheta_good hgood
  have hqual : judgeQuality a' (stepTransition (recordTheta (naiveTheta s st) s)) =
      (stepTransition (recordTheta (naiveTheta s st) s)).delStatus STARAD_OFFSET_QUALITY :=
    if_pos hgood.1
  dsimp only
  rw [htheta, hqual]
  refine Returns.bind (counterDiff_value _ _) fun d hd => Returns.skip fun best => Returns.pure ?_
  subst hd
  -- the sanity test reports the same bound
  have hbound : (judgeSanity st a' (a'.thetahat / a'.wsum) e
      (Arith.cmax a'.gapsize (s.osc.phat * vcD (st.Tf - s.off.thetastamp.Tf))) q
      ((stepTransition (recordTheta (naiveTheta s st) s)).delStatus
        STARAD_OFFSET_QUALITY)).err.EboundMinLast = e := judgeSanity_good e hgood hsane
  refine (iff_of_eq (congrArg (FullSecondBest mp st s) hbound)).trans ?_
  have hle : fullJmin (recordTheta (naiveTheta s st) s) ≤
      (stepTransition (recordTheta (naiveTheta s st) s)).si := Nat.le_of_lt hwin
  rw [he, hbest, if_pos hle]
  exact secondBest_iff ho hpos hwin (jmin_le_bestPacket (Nat.le_of_lt hwin))

end Code

end RADclock
