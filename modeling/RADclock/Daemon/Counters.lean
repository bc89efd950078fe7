import Mathlib.Data.List.Chain
import RADclock.Daemon.Config
import RADclock.Daemon.Filter
import RADclock.Sync.Held

/-!
# Counter differences between stamps

`RADalgo_bidir` subtracts counter readings of different stamps as unsigned 64-bit numbers,
always an earlier stamp of the series from a later one.

- The filter orders the `Ta`, so the differences of `Ta` are exact in every run.
- Nothing orders the `Tf`. From the second stamp on every call subtracts the `Tf` of the
  last stamp from that of the current one, so all differences are exact exactly when the
  `Tf` never decrease.
-/

namespace RADclock

open Lib Lib.Exec

variable {D : Type} [Arith D]

/-! ## The difference every call takes -/

section Gap

variable {st : BidirStamp D} {s : AlgoState D} {mp : Metaparam D}

omit [Arith D] in
theorem counterDiff_surely (later earlier : VCounter) :
    Surely (Event.diff later earlier : Event D) (counterDiff later earlier) :=
  Surely.left (Surely.emit _)

theorem processThetahatWarmup_surely :
    Surely (.diff st.Tf s.stamp.Tf) (processThetahatWarmup mp st s) :=
  Surely.skip fun _ => Surely.skip fun _ => Surely.left (counterDiff_surely _ _)

theorem processThetahatFull_surely (q : Bool) (E : D) :
    Surely (.diff st.Tf s.stamp.Tf) (processThetahatFull mp st q E s) :=
  Surely.left (counterDiff_surely _ _)

theorem warmupPhase_surely : Surely (.diff st.Tf s.stamp.Tf) (warmupPhase mp st s) := by
  obtain ⟨i, owd, Df, Db, -, hpath⟩ := warmupPath_frame st st.RTT s
  refine Surely.left (Surely.right (Q := fun s1 => s1.stamp = s.stamp) ?_ fun s1 h1 => ?_)
  · rw [hpath]
    refine (processPhatWarmup_frame _ _).mono ?_
    rintro s1 ⟨ends, K, phat, perr, rfl⟩
    rfl
  · rw [← h1]
    exact Surely.left processThetahatWarmup_surely

/-- Before the offset is estimated, no part of the full phase touches the last stamp. -/
theorem fullPhase_surely (inp : Input D) :
    Surely (.diff inp.stamp.Tf s.stamp.Tf) (fullPhase mp inp s) := by
  refine Surely.right (Q := fun s1 => s1.stamp = s.stamp) ?_ fun s1 h1 => ?_
  · refine (manageHistorywin_cases _ _ _).mono ?_
    rintro s2 ⟨s1, hs1, hcase⟩
    have h1 : s1.stamp = s.stamp := by
      rw [hs1]
      split <;> rfl
    rcases hcase with ⟨-, Df, Db, rfl⟩ | ⟨-, rfl⟩
    · exact h1
    · exact h1
  rw [← h1]
  refine Surely.right (processRTTFull_frame _ _) ?_
  rintro s2 ⟨rtt, e, perr, nhat, h, stt, rfl⟩
  refine Surely.right (processOWDAsymFull_frame _ _) ?_
  rintro s3 ⟨owd, e', Dfhat, Dbhat, Asymhat, rfl⟩
  refine Surely.right (Q := fun s4 => s4.stamp = s1.stamp) ?_ fun s4 h4 => ?_
  · refine (updateNextPstamp_cases _ _ _).mono ?_
    rintro s4 ⟨c, rfl | ⟨-, -, perr, nhat, rfl⟩⟩
    · rfl
    · rfl
  rw [← h4]
  refine Surely.right (processPhatFull_frame _ _ _ _) ?_
  rintro s5 ⟨K, phat, perr, c, stt, rfl⟩
  refine Surely.right (processPlocalFull_frame _ _) ?_
  rintro s6 ⟨en, ends, ploc, out, stt', rfl⟩
  exact Surely.left (processThetahatFull_surely _ _)

theorem phases_surely (conf : Config D) (inp : Input D) (h : s.stampI ≠ 0) :
    Surely (.diff inp.stamp.Tf s.stamp.Tf) (phases conf inp s) :=
  Surely.ite (fun hz => absurd hz h) fun _ =>
    Surely.ite (fun _ => warmupPhase_surely) fun _ => fullPhase_surely inp

theorem RADalgoBidir_surely (conf : Config D) (inp : Input D) (h : 0 ≤ s.stampI) :
    Surely (.diff inp.stamp.Tf s.stamp.Tf) (RADalgoBidir conf inp s) := by
  have hnext : nextStamp conf s = { s with stampI := s.stampI + 1 } :=
    nextStamp_later conf (by omega)
  unfold RADalgoBidir
  rw [hnext]
  refine Surely.right (Q := fun s1 => s1.stampI = s.stampI + 1 ∧ s1.stamp = s.stamp) ?_ ?_
  · refine Returns.ite (fun _ => ?_) fun _ => Returns.pure ⟨rfl, rfl⟩
    refine (updateState_cases _ _ _).mono ?_
    rintro s1 ⟨poll, -, ⟨-, rfl⟩ | ⟨-, v, e, rfl⟩⟩
    · exact ⟨rfl, rfl⟩
    · exact ⟨rfl, rfl⟩
  rintro s1 ⟨hidx, hstamp⟩
  rw [← hstamp]
  exact Surely.left (phases_surely (s := recordStamp inp.stamp s1) conf inp
    (show s1.stampI ≠ 0 by omega))

end Gap

/-! ## Series in order -/

section Series

variable {cs : List (Call D)}

theorem stampsOf_eq_getElem {k : Nat} (h : k < (cs.map (·.inp.stamp)).length) :
    stampsOf cs k = (cs.map (·.inp.stamp))[k] := by
  have hk : k < cs.length := by simpa using h
  unfold stampsOf
  rw [List.getElem?_eq_getElem hk, List.getElem_map]

/-- Neighbours in order put the whole series in order. -/
theorem stampsOf_le {f : BidirStamp D → VCounter}
    (h : (cs.map (·.inp.stamp)).IsChain fun a b => f a ≤ f b) {j i : Nat} (hji : j ≤ i)
    (hi : i < cs.length) : f (stampsOf cs j) ≤ f (stampsOf cs i) := by
  have htrans : Trans (fun a b : BidirStamp D => f a ≤ f b) (fun a b => f a ≤ f b)
      (fun a b => f a ≤ f b) := ⟨UInt64.le_trans⟩
  have hi' : i < (cs.map (·.inp.stamp)).length := by simpa using hi
  rcases Nat.eq_or_lt_of_le hji with rfl | hlt
  · exact UInt64.le_refl _
  · rw [stampsOf_eq_getElem hi', stampsOf_eq_getElem (Nat.lt_trans hlt hi')]
    exact List.pairwise_iff_getElem.mp (List.isChain_iff_pairwise.mp h) _ _ _ hi' hlt

/-- Differences within a series in order are exact. -/
theorem accepts_exact (hTa : (cs.map (·.inp.stamp)).IsChain fun a b => a.Ta ≤ b.Ta)
    (hTf : (cs.map (·.inp.stamp)).IsChain fun a b => a.Tf ≤ b.Tf) {n : Nat} (hn : n < cs.length) :
    Accepts Event.Exact (stampsOf cs) n where
  find _ _ _ _ := True.intro
  point _ _ := True.intro
  half _ := True.intro
  slide _ _ := True.intro
  diffs :=
    { Tf := fun _ _ hji hi => diff_exact_iff.mpr
        (stampsOf_le (f := (·.Tf)) hTf hji (Nat.lt_of_le_of_lt hi hn))
      Ta := fun _ _ hji hi => diff_exact_iff.mpr
        (stampsOf_le (f := (·.Ta)) hTa hji (Nat.lt_of_le_of_lt hi hn)) }
  zero _ := diff_exact_iff.mpr UInt64.zero_le

end Series

/-! ## Runs -/

section Run

/-- From the second stamp on, a call that returns has subtracted the `Tf` of the last. -/
theorem runFrom_surely {F : Nat → BidirStamp D} (cs : List (Call D)) :
    ∀ (n : Nat) (s : AlgoState D), Inv F n s → Follows F n cs →
      RunMeets (fun c s => KeepsPlocal c.conf s) cs s → ∀ k, k < cs.length →
      Surely (.diff (F (n + k)).Tf (F (n + k - 1)).Tf) (runFrom cs s) := by
  induction cs with
  | nil => exact fun _ _ _ _ _ k hk => absurd hk (Nat.not_lt_zero k)
  | cons c cs ih =>
    intro n s h hf hm k hk
    cases k with
    | zero =>
      have hpos := h.pos
      have hidx := h.idx
      have hgap := RADalgoBidir_surely (s := s) c.conf c.inp (by omega)
      rw [hf.head, h.last] at hgap
      exact Surely.left hgap
    | succ k =>
      have hinv : Returns (RADalgoBidir c.conf c.inp s) (Inv F (n + 1)) :=
        (inv_step (accepts_any F n) c.conf c.inp hf.head h hm.1).returns
      refine Surely.right (hinv.and fun s' => hm.2 s') ?_
      rintro s' ⟨h', hm'⟩
      have hrest := ih (n + 1) s' h' hf.tail hm' k (Nat.lt_of_succ_lt_succ hk)
      rw [show n + 1 + k = n + (k + 1) by omega] at hrest
      exact hrest

theorem run_surely {F : Nat → BidirStamp D} {cs : List (Call D)} (hf : Follows F 0 cs)
    (hm : RunMeets (fun c s => KeepsPlocal c.conf s) cs AlgoState.zero) {k : Nat}
    (hk : k + 1 < cs.length) : Surely (.diff (F (k + 1)).Tf (F k).Tf) (run cs) := by
  cases cs with
  | nil => exact absurd hk (Nat.not_lt_zero _)
  | cons c cs =>
    have hinv : Returns (RADalgoBidir c.conf c.inp AlgoState.zero) (Inv F 1) :=
      (inv_init (accepts_any F 0) c.conf c.inp hf.head).returns
    refine Surely.right (hinv.and fun s' => hm.2 s') ?_
    rintro s' ⟨h', hm'⟩
    have hrest := runFrom_surely cs 1 s' h' hf.tail hm' k (Nat.lt_of_succ_lt_succ hk)
    rw [show 1 + k = k + 1 by omega] at hrest
    exact hrest

/-- Without updates of the configuration there is nothing to keep. -/
theorem keepsPlocal_of_noUpdate (cs : List (Call D)) (s : AlgoState D)
    (h : ∀ c ∈ cs, c.conf.algoUpdate = false) :
    RunMeets (fun c s => KeepsPlocal c.conf s) cs s := by
  refine RunMeets.of_forall (fun c hc s' hupd => ?_) s
  rw [h c hc] at hupd
  cases hupd

/-- Each stamp passes the filter against the one before it. -/
def Accepted (sts : List (StampT D)) : Prop :=
  sts.IsChain fun last st => insaneBidirStamp st last = false

/-- The counter readings at reception never decrease. -/
def TfOrdered (sts : List (StampT D)) : Prop :=
  sts.IsChain fun last st => last.bst.Tf ≤ st.bst.Tf

/-- Let a run be fed with stamps that pass the filter one after the other. If the `Tf` never
decrease, every counter difference the run takes is exact; and a run that goes through to its
last stamp with exact differences only was fed with `Tf` that never decrease. -/
theorem exact_of_TfOrdered {cs : List (Call D)} {sts : List (StampT D)}
    (hfed : cs.map (·.inp.stamp) = sts.map (·.bst)) (hacc : Accepted sts)
    (hkeep : RunMeets (fun c s => KeepsPlocal c.conf s) cs AlgoState.zero) :
    (TfOrdered sts → ∀ e ∈ (run cs).log, e.Exact) ∧
      (∀ s, (run cs).res = some s → (∀ e ∈ (run cs).log, e.Exact) → TfOrdered sts) := by
  constructor
  · intro hTf
    have hTf' : (cs.map (·.inp.stamp)).IsChain fun a b => a.Tf ≤ b.Tf := by
      rw [hfed, List.isChain_map]
      exact hTf
    have hTa : (cs.map (·.inp.stamp)).IsChain fun a b => a.Ta ≤ b.Ta := by
      rw [hfed, List.isChain_map]
      refine hacc.imp fun last st h => ?_
      exact UInt64.le_of_lt (insaneBidirStamp_eq_false.mp h).2.2.2
    cases cs with
    | nil => exact fun e he => (nomatch he)
    | cons c cs =>
      exact (inv_run (follows_stampsOf _) (fun m hm => accepts_exact hTa hTf' hm) hkeep).emits
  · intro s hs hexact
    have hchain : (cs.map (·.inp.stamp)).IsChain fun a b => a.Tf ≤ b.Tf := by
      rw [List.isChain_iff_getElem]
      intro k hk
      have hlen : k + 1 < cs.length := by simpa using hk
      rw [← stampsOf_eq_getElem, ← stampsOf_eq_getElem]
      exact diff_exact_iff.mp (hexact _ (run_surely (follows_stampsOf cs) hkeep hlen s hs))
    rw [hfed, List.isChain_map] at hchain
    exact hchain

/-- Feed stamps to the algorithm under one configuration. -/
def feed (conf : Config D) (sts : List (StampT D)) : List (Call D) :=
  under conf (sts.map fun st => ⟨st.bst, false, 0⟩)

theorem feed_stamps (conf : Config D) (sts : List (StampT D)) :
    (feed conf sts).map (·.inp.stamp) = sts.map (·.bst) := by
  simp [feed, under]

theorem feed_conf {conf : Config D} {sts : List (StampT D)} {c : Call D}
    (h : c ∈ feed conf sts) : c.conf = conf := by
  obtain ⟨inp, -, rfl⟩ := List.mem_map.mp h
  rfl

end Run

/-! ## Two replies, in order and out of order -/

/-- A stamp of some server, with the given timestamps. -/
def ntpStamp (Ta : VCounter) (Tb Te : Float) (Tf : VCounter) : StampT Float where
  type := .ntp
  id := Ta
  serverIpaddr := []
  ttl := 64
  stratum := 1
  LI := 0
  refid := 0
  rootdelay := 0.0
  rootdispersion := 0.0
  bst := ⟨Ta, Tb, Te, Tf⟩

/-- The second reply arrives after the first. -/
def inOrder : List (StampT Float) :=
  [ntpStamp 1000 1.0 1.0 3000, ntpStamp 2000 2.0 2.0 5000]

/-- The second reply overtakes the first. -/
def overtaken : List (StampT Float) :=
  [ntpStamp 1000 1.0 1.0 5000, ntpStamp 2000 2.0 2.0 3000]

theorem exact_inOrder :
    TfOrdered inOrder ∧ ∀ e ∈ (run (feed defaults inOrder)).log, e.Exact := by
  have hordered : TfOrdered inOrder := List.isChain_pair.mpr (by decide)
  refine ⟨hordered, (exact_of_TfOrdered (feed_stamps _ _) (List.isChain_pair.mpr (by decide))
    (keepsPlocal_of_noUpdate _ _ fun c hc => ?_)).1 hordered⟩
  rw [feed_conf hc]
  decide

theorem not_exact_overtaken :
    (∀ st ∈ overtaken, Sane st ∧ st.bst.Ta + 120 ≤ st.bst.Tf) ∧ Accepted overtaken ∧
      ¬ ∀ e ∈ (run (feed defaults overtaken)).log, e.Exact := by
  refine ⟨?_, List.isChain_pair.mpr (by decide), fun hexact => ?_⟩
  · have hsane : ∀ st ∈ overtaken, missingTimestamp st.bst = false ∧ st.bst.Ta ≤ st.bst.Tf ∧
        ¬ st.bst.Te < st.bst.Tb ∧ 120 ≤ st.bst.Tf - st.bst.Ta ∧ st.bst.Ta + 120 ≤ st.bst.Tf := by
      decide
    intro st hst
    obtain ⟨h1, h2, h3, h4, h5⟩ := hsane st hst
    exact ⟨⟨h1, h2, h3, fun _ => h4⟩, h5⟩
  · -- the run goes through, and its second call subtracts 5000 from 3000
    have hupd : defaults.algoUpdate = false := by decide
    obtain ⟨s, hs, -⟩ := (run_held hupd (by decide +kernel) (by decide +kernel) _ _
      (follows_stampsOf (feed defaults overtaken))).exists_res
    have hkeep := keepsPlocal_of_noUpdate (feed defaults overtaken) AlgoState.zero fun c hc => by
      rw [feed_conf hc]
      exact hupd
    have hgap := run_surely (follows_stampsOf _) hkeep (Nat.lt_succ_self 1) s hs
    exact absurd (diff_exact_iff.mp (hexact _ hgap)) (by decide)

end RADclock
