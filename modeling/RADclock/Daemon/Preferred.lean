import Mathlib.Algebra.Order.BigOperators.Group.Finset
import RADclock.Daemon.Process
import RADclock.Sync.SecondBest

/-!
# The preferred clock (`preferred_RADclock`)

A daemon with several servers runs one clock for each and serves the one it prefers. After every
stamp the choice is made again: the server with the least path penalty, grown by the drift that is
possible since its last stamp, replaces the preferred one if it is sufficiently better, but not too
soon after the last change.

- `preferredRADclock`: the choice, as the source makes it.
- `MaySwitch`: when a server may replace the preferred one.
- `RightChoice`: only such a server does, and only a preferred clock that has seen enough stamps is
  kept although there is one.
- `choice_right_iff`: what goes wrong. The index of the last stamp of a server that has never
  answered is the largest there is, and a penalty of zero counts as no penalty.
-/

namespace RADclock

open Lib

variable {D : Type}

/-! ## The choice -/

/-- `struct radclock_data`, what the choice of the preferred clock reads. -/
structure RadData (D : Type) where
  phat : D
  lastChanged : VCounter

/-- The number of stamps that a clock has processed. -/
def stamps (s : AlgoState D) : Int := s.stampI + 1

/-- `MAX(NTP_BURST, 20)`. -/
def qualWin : Int := 20

/-- `struct radclock_handle` with several servers. The index of the last stamp of a server that has
none is `-1`; an `int` holds the number of all stamps. -/
structure MultiHandle (D : Type) extends Handle D where
  nservers : Nat
  prefSID : Nat
  prefDate : VCounter
  radData : Nat → RadData D
  prefSID_lt : prefSID < nservers
  stamps_nonneg : ∀ s, 0 ≤ stamps (state s)
  stamps_lt : ∑ s ∈ Finset.range nservers, (stamps (state s) + qualWin) < 2 ^ 31

section Choice

variable [Arith D] (h : MultiHandle D) (now : VCounter)

/-- The trust bit of a server is not set. -/
def MultiHandle.trusts (s : Nat) : Bool := h.toHandle.trusted s

/-- The data of the preferred clock. -/
def MultiHandle.RAD_DATA : RadData D := h.radData h.prefSID

/-- `state->stamp_i`, an `index_t`. -/
def MultiHandle.stampI (s : Nat) : UInt64 := UInt64.ofInt (h.state s).stampI

/-- The path penalty with the drift bound over the gap since the last stamp. -/
def MultiHandle.penalty (s : Nat) : D :=
  let driftpertick := h.RAD_DATA.phat * h.conf.metaparam.RateErrBOUND
  (h.state s).output.pathpenalty + vcD (now - (h.radData s).lastChanged) * driftpertick

/-- What the loop over the servers carries: `pp_curr`, then `s_min` with `pp_min`. -/
structure Choice (D : Type) where
  ppCurr : D
  best : Option (Nat × D)
  stampsinplay : Int32

/-- The body of the loop of `preferred_RADclock`. -/
def consider (c : Choice D) (s : Nat) : Choice D :=
  let count := Int32.ofNat (h.stampI s + 1).toNat
  if count < Int32.ofInt qualWin then c
  else
    let pathpenalty := h.penalty now s
    let c := { c with
      stampsinplay := c.stampsinplay + count
      ppCurr := if s = h.prefSID then pathpenalty else c.ppCurr }
    if s = h.prefSID ∨ h.trusts s = true then
      match c.best with
      | none => { c with best := some (s, pathpenalty) }
      | some (_, ppMin) =>
        if pathpenalty < ppMin then { c with best := some (s, pathpenalty) } else c
    else c

/-- The time since the last change is short. -/
def MultiHandle.recent : Prop :=
  h.RAD_DATA.phat * vcD (now - h.prefDate) < h.conf.metaparam.pathScale

instance : Decidable (h.recent now) := inferInstanceAs (Decidable (_ < _))

/-- `blockupdate`. -/
def MultiHandle.blockupdate : Prop := UInt64.ofInt qualWin ≤ h.stampI h.prefSID ∧ h.recent now

instance : Decidable (h.blockupdate now) := inferInstanceAs (Decidable (_ ∧ _))

/-- `preferred_RADclock`. -/
def preferredRADclock : Nat :=
  let c := (List.range h.nservers).foldl (consider h now) ⟨0, none, 0⟩
  match c.best with
  | none => h.prefSID
  | some (sMin, ppMin) =>
    if c.stampsinplay < Int32.ofInt (qualWin * h.nservers) then h.prefSID
    else if sMin = h.prefSID then sMin
    else if ppMin < 0.8 * c.ppCurr ∨ c.ppCurr == 0 then
      if h.blockupdate now then h.prefSID else sMin
    else h.prefSID

/-! ## What the choice should be -/

/-- A server that takes part: trusted or preferred, and with enough stamps. -/
structure Eligible (s : Nat) : Prop where
  server : s < h.nservers
  trusted : s = h.prefSID ∨ h.trusts s = true
  adequate : qualWin ≤ stamps (h.state s)

/-- The stamps of a server, if they are enough. -/
def countedStamps (s : Nat) : Int := if qualWin ≤ stamps (h.state s) then stamps (h.state s) else 0

/-- The stamps in play are enough. -/
def PoolAdequate : Prop :=
  qualWin * h.nservers ≤ ∑ s ∈ Finset.range h.nservers, countedStamps h s

/-- A server may replace the preferred one. -/
structure MaySwitch (s : Nat) : Prop where
  trusted : h.trusts s = true
  eligible : Eligible h s
  least : ∀ s', Eligible h s' → ¬ h.penalty now s' < h.penalty now s
  better : Eligible h h.prefSID → h.penalty now s < 0.8 * h.penalty now h.prefSID
  pool : PoolAdequate h

/-- Only a server that may replace the preferred one does; if there is one and the preferred one is
kept, that one has enough stamps itself. -/
structure RightChoice : Prop where
  switch : preferredRADclock h now ≠ h.prefSID → MaySwitch h now (preferredRADclock h now)
  kept : (∃ s, s ≠ h.prefSID ∧ MaySwitch h now s) → preferredRADclock h now = h.prefSID →
    qualWin ≤ stamps (h.state h.prefSID)

/-- The preferred server has never answered, another one could be preferred, and the last change
was recent. -/
structure NeverAnswered : Prop where
  none : stamps (h.state h.prefSID) = 0
  other : ∃ s, Eligible h s
  pool : PoolAdequate h
  recent : h.recent now

/-- The preferred server has the penalty zero, and a server before it too, none having a negative
one; or the first server that takes part, before the preferred one, has none that is a number. -/
structure ZeroTie : Prop where
  preferred : Eligible h h.prefSID
  zero : (h.penalty now h.prefSID == 0) = true
  pool : PoolAdequate h
  free : ¬ h.blockupdate now
  before : ∃ s < h.prefSID, Eligible h s ∧
    ((h.penalty now s == 0) = true ∧ (∀ s', Eligible h s' → ¬ h.penalty now s' < 0) ∨
      (h.penalty now s == h.penalty now s) = false ∧ ∀ s' < s, ¬ Eligible h s')

end Choice

/-! ## Counting stamps -/

section Count

variable (h : MultiHandle D) {s : Nat}

theorem stamps_add_le (hs : s < h.nservers) :
    ∑ i ∈ Finset.range s, stamps (h.state i) + stamps (h.state s) + qualWin * h.nservers <
      2 ^ 31 := by
  have hsum := h.stamps_lt
  rw [Finset.sum_add_distrib, Finset.sum_const, Finset.card_range, nsmul_eq_mul] at hsum
  have hmono : ∑ i ∈ Finset.range (s + 1), stamps (h.state i) ≤
      ∑ i ∈ Finset.range h.nservers, stamps (h.state i) :=
    Finset.sum_le_sum_of_subset_of_nonneg (Finset.range_mono hs) fun i _ _ => h.stamps_nonneg i
  rw [Finset.sum_range_succ] at hmono
  have hcomm : qualWin * (h.nservers : Int) = h.nservers * qualWin := mul_comm _ _
  omega

theorem countedStamps_le (i : Nat) :
    0 ≤ countedStamps h i ∧ countedStamps h i ≤ stamps (h.state i) := by
  have hnonneg := h.stamps_nonneg i
  unfold countedStamps
  split
  · exact ⟨hnonneg, le_refl _⟩
  · exact ⟨le_refl _, hnonneg⟩

/-- The numbers of stamps that the loop works with stay in the range of an `int`. -/
theorem counted_range (hs : s < h.nservers) :
    0 ≤ ∑ i ∈ Finset.range s, countedStamps h i ∧
    ∑ i ∈ Finset.range s, countedStamps h i + stamps (h.state s) + qualWin * h.nservers <
      2 ^ 31 := by
  have hbound := stamps_add_le h hs
  have hle : ∑ i ∈ Finset.range s, countedStamps h i ≤ ∑ i ∈ Finset.range s, stamps (h.state i) :=
    Finset.sum_le_sum fun i _ => (countedStamps_le h i).2
  exact ⟨Finset.sum_nonneg fun i _ => (countedStamps_le h i).1, by omega⟩

theorem toNat_ofInt {n : Int} (h0 : 0 ≤ n) (hn : n < 2 ^ 64) :
    (UInt64.ofInt n).toNat = n.toNat := by
  show (UInt64.ofNat (n % 2 ^ 64).toNat).toNat = _
  rw [Int.emod_eq_of_lt h0 hn, UInt64.toNat_ofNat', Nat.mod_eq_of_lt (by omega)]

theorem toInt_qualWin : (Int32.ofInt qualWin).toInt = qualWin := by decide

/-- `(int)(state->stamp_i + 1)` is the number of stamps, zero if there are none. -/
theorem toInt_count (hs : s < h.nservers) :
    (Int32.ofNat (h.stampI s + 1).toNat).toInt = stamps (h.state s) := by
  have hrange := counted_range h hs
  have hnonneg := h.stamps_nonneg s
  have hq : 0 ≤ qualWin * (h.nservers : Int) := by
    unfold qualWin
    omega
  have hsucc : h.stampI s + 1 = UInt64.ofInt (stamps (h.state s)) := by
    rw [stamps, UInt64.ofInt_add]
    rfl
  rw [hsucc, toNat_ofInt hnonneg (by omega), Int32.toInt_ofNat_of_lt (by omega),
    Int.toNat_of_nonneg hnonneg]

theorem count_lt_iff (hs : s < h.nservers) :
    Int32.ofNat (h.stampI s + 1).toNat < Int32.ofInt qualWin ↔ stamps (h.state s) < qualWin := by
  rw [Int32.lt_iff_toInt_lt, toInt_count h hs, toInt_qualWin]

/-- The index of the last stamp is at least `20` also when there is none. -/
theorem qualWin_le_stampI :
    UInt64.ofInt qualWin ≤ h.stampI h.prefSID ↔
      stamps (h.state h.prefSID) = 0 ∨ qualWin < stamps (h.state h.prefSID) := by
  have hrange := counted_range h h.prefSID_lt
  have hnonneg := h.stamps_nonneg h.prefSID
  have hq : 0 ≤ qualWin * (h.nservers : Int) := by
    unfold qualWin
    omega
  have hstampI : (h.state h.prefSID).stampI = stamps (h.state h.prefSID) - 1 := by
    unfold stamps
    omega
  unfold MultiHandle.stampI
  rw [hstampI]
  generalize stamps (h.state h.prefSID) = n at hrange hnonneg
  rcases hnonneg.lt_or_eq with hpos | rfl
  · rw [UInt64.le_iff_toNat_le, toNat_ofInt (n := n - 1) (by omega) (by omega)]
    show (UInt64.ofInt 20).toNat ≤ _ ↔ _ ∨ 20 < n
    rw [show (UInt64.ofInt 20).toNat = 20 from rfl]
    omega
  · decide

end Count

/-! ## The loop -/

section Loop

variable [Arith D] {num : D → Prop} (h : MultiHandle D) (now : VCounter) {k : Nat} {c : Choice D}

/-- `b`, with the penalty `v`, leads among the servers before `k`: no penalty is smaller, and the
servers before it have larger ones or none that is a number. -/
structure Leads (num : D → Prop) (k b : Nat) (v : D) : Prop where
  before : b < k
  eligible : Eligible h b
  value : v = h.penalty now b
  least : ∀ s < k, Eligible h s → ¬ h.penalty now s < v
  earlier : ∀ s < b, Eligible h s → num (h.penalty now s) → v < h.penalty now s
  first : ∀ s < k, Eligible h s → (∀ s' < s, ¬ Eligible h s') → s = b ∨ v < h.penalty now s

/-- What the loop knows after the servers before `k`. -/
structure Considered (num : D → Prop) (k : Nat) (c : Choice D) : Prop where
  curr : h.prefSID < k → Eligible h h.prefSID → c.ppCurr = h.penalty now h.prefSID
  noCurr : (h.prefSID < k → ¬ Eligible h h.prefSID) → c.ppCurr = 0
  none : c.best = none → ∀ s < k, ¬ Eligible h s
  some : ∀ p, c.best = some p → Leads h now num k p.1 p.2
  play : c.stampsinplay.toInt = ∑ s ∈ Finset.range k, countedStamps h s

theorem considered_start : Considered h now num 0 ⟨0, none, 0⟩ where
  curr hs := by omega
  noCurr _ := rfl
  none _ s hs := by omega
  some p hp := (nomatch hp)
  play := rfl

variable {h now}

/-- A server that takes no part leaves the lead as it is. -/
theorem Leads.skip {b : Nat} {v : D} (hl : Leads h now num k b v) (hk : ¬ Eligible h k) :
    Leads h now num (k + 1) b v where
  before := Nat.lt_succ_of_lt hl.before
  eligible := hl.eligible
  value := hl.value
  least s hs he := hl.least s (by
    rcases Nat.lt_succ_iff_lt_or_eq.mp hs with hs | rfl
    · exact hs
    · exact absurd he hk) he
  earlier := hl.earlier
  first s hs he := hl.first s (by
    rcases Nat.lt_succ_iff_lt_or_eq.mp hs with hs | rfl
    · exact hs
    · exact absurd he hk) he

theorem Leads.alone (ho : OrderedNumbers num) (hk : Eligible h k)
    (hnone : ∀ s < k, ¬ Eligible h s) : Leads h now num (k + 1) k (h.penalty now k) where
  before := Nat.lt_succ_self k
  eligible := hk
  value := rfl
  least s hs he := by
    rcases Nat.lt_succ_iff_lt_or_eq.mp hs with hs | rfl
    · exact absurd he (hnone s hs)
    · exact lt_irrefl_of ho.toOrdered _
  earlier s hs he := absurd he (hnone s hs)
  first s hs he _ := by
    rcases Nat.lt_succ_iff_lt_or_eq.mp hs with hs | rfl
    · exact absurd he (hnone s hs)
    · exact Or.inl rfl

theorem Leads.taken (ho : OrderedNumbers num) {b : Nat} {v : D} (hl : Leads h now num k b v)
    (hk : Eligible h k) (hlt : h.penalty now k < v) :
    Leads h now num (k + 1) k (h.penalty now k) where
  before := Nat.lt_succ_self k
  eligible := hk
  value := rfl
  least s hs he := by
    rcases Nat.lt_succ_iff_lt_or_eq.mp hs with hs | rfl
    · exact fun hlow => hl.least s hs he (lt_trans_of ho.toOrdered hlow hlt)
    · exact lt_irrefl_of ho.toOrdered _
  earlier s hs he hnum := by
    -- The number lies above the old lead, which is not above it.
    rcases ho.between _ _ _ hnum hlt with habove | hbelow
    · exact habove
    · exact absurd hbelow (hl.least s hs he)
  first s hs he hfirst := by
    rcases Nat.lt_succ_iff_lt_or_eq.mp hs with hs | rfl
    · right
      rcases hl.first s hs he hfirst with rfl | hless
      · rw [← hl.value]
        exact hlt
      · exact lt_trans_of ho.toOrdered hlt hless
    · exact Or.inl rfl

theorem Leads.kept {b : Nat} {v : D} (hl : Leads h now num k b v)
    (hk : Eligible h k) (hlt : ¬ h.penalty now k < v) : Leads h now num (k + 1) b v where
  before := Nat.lt_succ_of_lt hl.before
  eligible := hl.eligible
  value := hl.value
  least s hs he := by
    rcases Nat.lt_succ_iff_lt_or_eq.mp hs with hs | rfl
    · exact hl.least s hs he
    · exact hlt
  earlier := hl.earlier
  first s hs he hfirst := by
    rcases Nat.lt_succ_iff_lt_or_eq.mp hs with hs | rfl
    · exact hl.first s hs he hfirst
    · exact absurd hl.eligible (hfirst b hl.before)

theorem Considered.step (ho : OrderedNumbers num) (hc : Considered h now num k c)
    (hk : k < h.nservers) : Considered h now num (k + 1) (consider h now c k) := by
  have hrange := counted_range h hk
  have hnonneg := h.stamps_nonneg k
  have hplay := hc.play
  have hsum := Finset.sum_range_succ (countedStamps h) k
  unfold consider
  simp only [count_lt_iff h hk]
  -- a server with too few stamps is passed over
  by_cases hfew : stamps (h.state k) < qualWin
  · have hno : ¬ Eligible h k := fun he => absurd he.adequate (by omega)
    rw [if_pos hfew]
    refine ⟨fun hpref he => hc.curr ?_ he, fun hpref => hc.noCurr fun hlt => hpref (by omega),
      fun hb s hs => ?_, fun p hp => (hc.some p hp).skip hno, ?_⟩
    · rcases Nat.lt_succ_iff_lt_or_eq.mp hpref with hlt | heq
      · exact hlt
      · exact absurd (heq ▸ he) hno
    · rcases Nat.lt_succ_iff_lt_or_eq.mp hs with hs | rfl
      · exact hc.none hb s hs
      · exact hno
    · rw [hsum, countedStamps, if_neg (by omega), hplay, add_zero]
  · rw [if_neg hfew]
    have hcount : countedStamps h k = stamps (h.state k) := if_pos (by omega)
    -- its penalty is noted when it is the preferred one
    have hcurr : ∀ x, x = (if k = h.prefSID then h.penalty now k else c.ppCurr) →
        (h.prefSID < k + 1 → Eligible h h.prefSID → x = h.penalty now h.prefSID) ∧
        ((h.prefSID < k + 1 → ¬ Eligible h h.prefSID) → x = 0) := by
      rintro x rfl
      by_cases hpref : k = h.prefSID
      · rw [if_pos hpref, ← hpref]
        refine ⟨fun _ _ => rfl, fun hno => absurd ⟨hk, .inl hpref, by omega⟩ (hno (by omega))⟩
      · rw [if_neg hpref]
        exact ⟨fun hlt he => hc.curr (by omega) he, fun hno => hc.noCurr fun hlt => hno (by omega)⟩
    have hplay' : (c.stampsinplay + Int32.ofNat (h.stampI k + 1).toNat).toInt =
        ∑ s ∈ Finset.range (k + 1), countedStamps h s := by
      have hq : 0 ≤ qualWin * (h.nservers : Int) := by
        unfold qualWin
        omega
      rw [Int32.toInt_add, toInt_count h hk, hplay, hsum, hcount,
        Int.bmod_eq_of_le (by omega) (by omega)]
    -- and compared with the best so far when it may be chosen
    by_cases htakes : k = h.prefSID ∨ h.trusts k = true
    · have he : Eligible h k := ⟨hk, htakes, by omega⟩
      rw [if_pos htakes]
      -- the first candidate is taken as it is, a later one only when strictly better
      cases hb : c.best with
      | none =>
        have hnone := hc.none hb
        refine ⟨(hcurr _ rfl).1, (hcurr _ rfl).2, fun hn => (nomatch hn), fun p hp => ?_, hplay'⟩
        cases hp
        exact Leads.alone ho he hnone
      | some p =>
        have hl := hc.some p hb
        simp only
        by_cases hlt : h.penalty now k < p.2
        · rw [if_pos hlt]
          refine ⟨(hcurr _ rfl).1, (hcurr _ rfl).2, fun hn => (nomatch hn), fun p' hp => ?_, hplay'⟩
          cases hp
          exact hl.taken ho he hlt
        · rw [if_neg hlt]
          refine ⟨(hcurr _ rfl).1, (hcurr _ rfl).2, fun hn => (nomatch hn), fun p' hp => ?_, hplay'⟩
          cases hp
          exact hl.kept he hlt
    · have hno : ¬ Eligible h k := fun he => htakes he.trusted
      rw [if_neg htakes]
      refine ⟨(hcurr _ rfl).1, (hcurr _ rfl).2, fun hb s hs => ?_,
        fun p hp => (hc.some p hp).skip hno, hplay'⟩
      rcases Nat.lt_succ_iff_lt_or_eq.mp hs with hs | rfl
      · exact hc.none hb s hs
      · exact hno

theorem considered_range (ho : OrderedNumbers num) :
    ∀ k ≤ h.nservers, Considered h now num k
      ((List.range k).foldl (consider h now) ⟨0, none, 0⟩) := by
  intro k
  induction k with
  | zero => exact fun _ => considered_start h now
  | succ k ih =>
    intro hk
    rw [List.range_succ, List.foldl_append]
    exact (ih (by omega)).step ho hk

theorem pool_iff (hc : Considered h now num h.nservers c) :
    c.stampsinplay < Int32.ofInt (qualWin * h.nservers) ↔ ¬ PoolAdequate h := by
  have hrange := counted_range h h.prefSID_lt
  have hnonneg := h.stamps_nonneg h.prefSID
  have hq : 0 ≤ qualWin * (h.nservers : Int) := by
    unfold qualWin
    omega
  rw [Int32.lt_iff_toInt_lt, hc.play, Int32.toInt_ofInt_of_le (by omega) (by omega)]
  unfold PoolAdequate
  omega

variable (h now)

/-- The leader of all servers and what `pp_curr` is: what the choice rests on. -/
theorem preferredRADclock_cases (ho : OrderedNumbers num) :
    (preferredRADclock h now = h.prefSID ∧ ((∀ s, ¬ Eligible h s) ∨ ¬ PoolAdequate h)) ∨
    ∃ b v curr, Leads h now num h.nservers b v ∧ PoolAdequate h ∧
      (Eligible h h.prefSID → curr = h.penalty now h.prefSID) ∧
      (¬ Eligible h h.prefSID → curr = 0) ∧
      preferredRADclock h now =
        if b = h.prefSID then b
        else if v < 0.8 * curr ∨ curr == 0 then
          if h.blockupdate now then h.prefSID else b
        else h.prefSID := by
  have hc : Considered h now num h.nservers _ := considered_range ho h.nservers (le_refl _)
  unfold preferredRADclock
  generalize (List.range h.nservers).foldl (consider h now) ⟨0, none, 0⟩ = c at hc ⊢
  cases hb : c.best with
  | none => exact .inl ⟨by simp only [hb], .inl fun s he => hc.none hb s he.server he⟩
  | some p =>
    simp only [hb]
    by_cases hpool : PoolAdequate h
    · rw [if_neg (mt (pool_iff hc).mp (not_not.mpr hpool))]
      exact .inr ⟨p.1, p.2, c.ppCurr, hc.some p hb, hpool, fun he => hc.curr h.prefSID_lt he,
        fun hno => hc.noCurr fun _ => hno, rfl⟩
    · rw [if_pos ((pool_iff hc).mpr hpool)]
      exact .inl ⟨rfl, .inr hpool⟩

end Loop

/-! ## Zero penalties -/

open Float.Model in
theorem zero_of_beq {x : Float} (h : (x == 0.0) = true) : ∃ s, x.toModel.unpack = .zero s := by
  have hzero : (0.0 : Float).toModel.unpack.compare (.zero .positive) = some .eq := by
    decide
  rcases eq_or_zeros_of_compare (Float.beq_iff.mp h) with h | ⟨s, t, h, -⟩
  · rw [← h] at hzero
    rcases eq_or_zeros_of_compare hzero with h | ⟨s, t, h, -⟩
    · exact ⟨_, h⟩
    · exact ⟨s, h⟩
  · exact ⟨s, h⟩

/-- The improvement ratio of zero is zero. -/
theorem improvement_zero {x : Float} (h : (x == 0.0) = true) : (0.8 * x == 0.0) = true := by
  obtain ⟨s, hs⟩ := zero_of_beq h
  have hmul : (0.8 * x).toModel = Float.Model.pack (Float.Model.UnpackedFloat.mul
    Float.Model.Format.binary64 (0.8 : Float).toModel.unpack x.toModel.unpack) := rfl
  rw [Float.beq_iff, hmul, hs]
  cases s <;> decide

/-- With a preferred penalty of zero, an improvement is a negative penalty. -/
theorem lt_improvement_iff {x : Float} (h : (x == 0.0) = true) (y : Float) :
    (y < 0.8 * x ↔ y < 0.0) ∧ (y < x ↔ y < 0.0) :=
  ⟨Float.lt_congr_right (improvement_zero h) y, Float.lt_congr_right h y⟩

open Float.Model in
/-- A number that is neither negative nor positive is zero. -/
theorem beq_zero_of_not_lt {y : Float} (hy : IsNumber y) (h : ¬ y < 0.0) (h' : ¬ 0.0 < y) :
    (y == 0.0) = true := by
  obtain ⟨s, hs⟩ := zero_of_beq (x := 0.0) (by decide)
  rw [Float.lt_iff, hs] at h h'
  rw [Float.beq_iff, hs]
  have hnum : y.toModel.unpack.isNaN = false := hy
  cases hu : y.toModel.unpack with
  | notANumber =>
    rw [hu] at hnum
    cases hnum
  | infinity t =>
    rw [hu] at h h'
    cases t
    · exact absurd rfl h
    · exact absurd rfl h'
  | zero t => rfl
  | finite t m e hm =>
    rw [hu] at h h'
    cases t
    · exact absurd rfl h
    · exact absurd rfl h'

/-! ## The result -/

section Result

variable (h : MultiHandle Float) (now : VCounter)

/-- The leader among all servers may replace the preferred one, except perhaps for the
improvement. -/
theorem Leads.maySwitch {h : MultiHandle Float} {now : VCounter} {b : Nat} {v : Float}
    (hl : Leads h now IsNumber h.nservers b v) (hpool : PoolAdequate h) (hb : b ≠ h.prefSID)
    (hbetter : Eligible h h.prefSID → v < 0.8 * h.penalty now h.prefSID) : MaySwitch h now b where
  trusted := hl.eligible.trusted.resolve_left hb
  eligible := hl.eligible
  least s he := hl.value ▸ hl.least s he.server he
  better he := hl.value ▸ hbetter he
  pool := hpool

theorem not_right_of_neverAnswered (hn : NeverAnswered h now) : ¬ RightChoice h now := by
  intro hright
  have hfew : ¬ Eligible h h.prefSID := fun he => by
    have := he.adequate
    rw [hn.none] at this
    exact absurd this (by decide)
  rcases preferredRADclock_cases h now orderedNumbers_float with
    ⟨_, hno | hno⟩ | ⟨b, v, curr, hl, hpool, _, hcurr, hchoice⟩
  · obtain ⟨s, hs⟩ := hn.other
    exact hno s hs
  · exact hno hn.pool
  · have hb : b ≠ h.prefSID := fun heq => hfew (heq ▸ hl.eligible)
    have hblocked : h.blockupdate now :=
      ⟨(qualWin_le_stampI h).mpr (.inl hn.none), hn.recent⟩
    rw [if_neg hb, hcurr hfew, if_pos (.inr (by decide)), if_pos hblocked] at hchoice
    have hkept := hright.kept ⟨b, hb, hl.maySwitch hpool hb fun he => absurd he hfew⟩ hchoice
    rw [hn.none] at hkept
    exact absurd hkept (by decide)

/-- Before the preferred server, a penalty of zero that none undercuts, or a first one that is no
number, keeps the preferred server from leading and is no improvement on it. -/
theorem not_right_of_zeroTie (ht : ZeroTie h now) : ¬ RightChoice h now := by
  intro hright
  obtain ⟨hpref, hzero, hpool, hfree, s, hs, he, hbefore⟩ := ht
  have hnumPref : IsNumber (h.penalty now h.prefSID) := by
    have hself := (Float.beq_congr hzero (h.penalty now h.prefSID)).trans (Float.beq_comm_of hzero)
    exact Float.beq_self_iff_isNaN.mp hself
  rcases preferredRADclock_cases h now orderedNumbers_float with
    ⟨_, hno | hno⟩ | ⟨b, v, curr, hl, _, hcurr, _, hchoice⟩
  · exact hno s he
  · exact hno hpool
  · have hcases : b ≠ h.prefSID ∧ ¬ v < 0.0 := by
      rcases hbefore with ⟨hszero, hneg⟩ | ⟨hnan, hfirst⟩
      · refine ⟨?_, hl.value ▸ hneg b hl.eligible⟩
        -- The preferred server does not lead: `s` comes first and is not larger.
        rintro rfl
        have hnum : IsNumber (h.penalty now s) :=
          Float.beq_self_iff_isNaN.mp ((Float.beq_congr hszero _).trans (Float.beq_comm_of hszero))
        have hlt := hl.earlier s hs he hnum
        rw [hl.value, Float.lt_congr_left hzero, Float.lt_congr_right hszero] at hlt
        exact Float.lt_irrefl _ hlt
      · have hnot : ∀ y : Float, ¬ y < h.penalty now s := fun y hlt => by
          have hnum := (Float.lt_iff_rank.mp hlt).2.1
          rw [Float.beq_self_iff_isNaN.mpr hnum] at hnan
          cases hnan
        rcases hl.first s he.server he hfirst with rfl | hlt
        · refine ⟨by omega, fun hlt => ?_⟩
          rw [hl.value] at hlt
          have hnum := (Float.lt_iff_rank.mp hlt).1
          rw [Float.beq_self_iff_isNaN.mpr hnum] at hnan
          cases hnan
        · exact absurd hlt (hnot v)
    have hcurr' := hcurr hpref
    rw [if_neg hcases.1, if_pos (.inr (by rw [hcurr']; exact hzero)), if_neg hfree] at hchoice
    have hswitch := hright.switch (by rw [hchoice]; exact hcases.1)
    rw [hchoice] at hswitch
    have hbetter := hswitch.better hpref
    rw [(lt_improvement_iff hzero _).1, ← hl.value] at hbetter
    exact hcases.2 hbetter

theorem first_of_eligible {h : MultiHandle Float} {s : Nat} (hs : Eligible h s) :
    ∃ e ≤ s, Eligible h e ∧ ∀ s' < e, ¬ Eligible h s' := by
  classical
  have hex : ∃ n, Eligible h n := ⟨s, hs⟩
  exact ⟨Nat.find hex, Nat.find_min' hex hs, Nat.find_spec hex, fun s' hs' => Nat.find_min hex hs'⟩

/-- A leader that does not improve on a preferred server of penalty zero ties with it. -/
theorem Leads.zeroTie {h : MultiHandle Float} {now : VCounter} {b : Nat} {v : Float}
    (hl : Leads h now IsNumber h.nservers b v) (hpool : PoolAdequate h)
    (hpref : Eligible h h.prefSID) (hzero : (h.penalty now h.prefSID == 0) = true)
    (hb : b ≠ h.prefSID) (hfree : ¬ h.blockupdate now)
    (hlt : ¬ v < 0.8 * h.penalty now h.prefSID) : ZeroTie h now := by
  rw [(lt_improvement_iff hzero v).1] at hlt
  have hnumPref : IsNumber (h.penalty now h.prefSID) :=
    Float.beq_self_iff_isNaN.mp ((Float.beq_congr hzero _).trans (Float.beq_comm_of hzero))
  refine ⟨hpref, hzero, hpool, hfree, b, ?_, hl.eligible, ?_⟩
  · by_contra hle
    have hless := hl.earlier h.prefSID (by omega) hpref hnumPref
    exact hlt ((lt_improvement_iff hzero v).2.mp hless)
  · have hleast := hl.least h.prefSID h.prefSID_lt hpref
    rw [Float.lt_congr_left hzero] at hleast
    rw [← hl.value]
    by_cases hnum : IsNumber v
    · have hvzero := beq_zero_of_not_lt hnum hlt hleast
      refine .inl ⟨hvzero, fun s' he => ?_⟩
      exact mt (Float.lt_congr_right hvzero _).mpr (hl.least s' he.server he)
    · refine .inr ⟨Bool.eq_false_iff.mpr (mt Float.beq_self_iff_isNaN.mp hnum), fun s' hs' he => ?_⟩
      obtain ⟨e, hle, hee, hefirst⟩ := first_of_eligible he
      rcases hl.first e hee.server hee hefirst with rfl | hless
      · omega
      · exact hnum (Float.lt_iff_rank.mp hless).1

/-- The choice is right unless the preferred server has never answered and holds on all the same,
or a server that is no improvement replaces a preferred one with a penalty of zero. -/
theorem choice_right_iff :
    RightChoice h now ↔ ¬ NeverAnswered h now ∧ ¬ ZeroTie h now := by
  refine ⟨fun hright => ⟨fun hn => not_right_of_neverAnswered h now hn hright,
    fun ht => not_right_of_zeroTie h now ht hright⟩, ?_⟩
  rintro ⟨hanswered, htie⟩
  rcases preferredRADclock_cases h now orderedNumbers_float with
    ⟨hkeep, hno⟩ | ⟨b, v, curr, hl, hpool, hcurr, hnoCurr, hchoice⟩
  · refine ⟨fun hne => absurd hkeep hne, fun ⟨s, _, hs⟩ _ => ?_⟩
    rcases hno with hno | hno
    · exact absurd hs.eligible (hno s)
    · exact absurd hs.pool hno
  constructor
  · -- A switch: to the leader, which improves on the preferred server unless that has the
    -- penalty zero.
    intro hne
    by_cases hb : b = h.prefSID
    · rw [if_pos hb] at hchoice
      exact absurd (hchoice.trans hb) hne
    rw [if_neg hb] at hchoice
    by_cases hbetter : v < 0.8 * curr ∨ (curr == 0) = true
    · rw [if_pos (by exact hbetter)] at hchoice
      by_cases hblocked : h.blockupdate now
      · rw [if_pos hblocked] at hchoice
        exact absurd hchoice hne
      rw [if_neg hblocked] at hchoice
      rw [hchoice]
      refine hl.maySwitch hpool hb fun hpref => ?_
      rw [hcurr hpref] at hbetter
      rcases hbetter with hlt | hzero
      · exact hlt
      by_contra hlt
      exact htie (hl.zeroTie hpool hpref hzero hb hblocked hlt)
    · rw [if_neg (by exact hbetter)] at hchoice
      exact absurd hchoice hne
  · -- Kept although a server may replace it, by a clock that has too few stamps: blocked.
    rintro ⟨s, hs, hmay⟩ hkeep
    by_contra hfew
    have hno : ¬ Eligible h h.prefSID := fun he => hfew he.adequate
    have hb : b ≠ h.prefSID := fun heq => hno (heq ▸ hl.eligible)
    rw [if_neg hb, hnoCurr hno, if_pos (.inr (by decide)), hkeep] at hchoice
    by_cases hblocked : h.blockupdate now
    · rcases (qualWin_le_stampI h).mp hblocked.1 with hnone | hmany
      · exact hanswered ⟨hnone, ⟨s, hmay.eligible⟩, hpool, hblocked.2⟩
      · exact hfew hmany.le
    · rw [if_neg hblocked] at hchoice
      exact hb hchoice.symm

end Result

/-! ## A server that never answers -/

/-- Two servers after `init_mRADclocks`; the second, not the preferred one, has answered forty times
and has a penalty of `10 ms`. -/
def silent : MultiHandle Float where
  toHandle := { Handle.init defaults with
    state := fun s => if s = 1 then
      { AlgoState.zero with
        stampI := 39
        output := { (AlgoState.zero : AlgoState Float).output with pathpenalty := 0.01 } }
      else AlgoState.zero }
  nservers := 2
  prefSID := 0
  prefDate := 0
  radData _ := ⟨1e-9, 0⟩
  prefSID_lt := by decide
  stamps_nonneg s := by
    by_cases hs : s = 1
    · simp [stamps, hs]
    · simp [stamps, hs, AlgoState.zero]
  stamps_lt := by decide

/-- At `1000 s` on a counter of `1 GHz` the preferred server, which has never answered, is kept by
the anti-churn timer. -/
theorem not_right_silent : ¬ RightChoice silent 1000000000000 := by
  intro hright
  have hpref : ¬ Eligible silent silent.prefSID := fun he => absurd he.adequate (by decide)
  have hone : ∀ s, Eligible silent s → s = 1 := by
    intro s hs
    have hlt : s < 2 := hs.server
    rcases Nat.lt_succ_iff_lt_or_eq.mp hlt with hlt | rfl
    · have hs0 : s = silent.prefSID := by
        show s = 0
        omega
      exact absurd (hs0 ▸ hs) hpref
    · rfl
  have hmay : MaySwitch silent 1000000000000 1 := {
    trusted := by decide
    eligible := ⟨by decide, .inr (by decide), by decide⟩
    least := fun s hs => by rw [hone s hs]; exact Float.lt_irrefl _
    better := fun he => absurd he hpref
    pool := by
      unfold PoolAdequate
      decide }
  have hkept := hright.kept ⟨1, by decide, hmay⟩ (by decide)
  exact absurd hkept (by decide)

end RADclock
