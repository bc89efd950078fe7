import RADclock.Daemon.WarmupHistory
import RADclock.Sync.Transitions

/-!
# The time left in warmup

A configuration change in warmup adds an entire new warmup, with the windows of the new
configuration. What was left of the old one is not looked at: the time left grows when the new
warmup is the longer, and shrinks otherwise.
-/

namespace RADclock

open Lib Lib.Exec

variable {D : Type} [Arith D]

/-- The time left in warmup from stamp `i` on, in seconds. -/
def warmupLeft (i : Nat) (s : AlgoState D) : Nat := (s.win.warmupWin - i) * s.poll.pollPeriod

/-- The time an entire warmup takes, in seconds. -/
def warmupTime (conf : Config D) : Nat := requiredWarmup conf * conf.pollPeriod

/-- After a change, an entire warmup is left. -/
theorem reactToUpdate_warmupLeft {F : Nat → BidirStamp D} {n : Nat} {s : AlgoState D}
    (conf : Config D) (hn : n ≠ 0) (h : Starting F n s) (hupd : conf.algoUpdate = true)
    (hwarm : n < s.win.warmupWin) :
    Returns (reactToUpdate conf s) fun s' => warmupLeft n s' = warmupTime conf := by
  have hsi := h.si
  refine Returns.ite (fun _ => ?_) fun hno => absurd hupd hno
  refine (updateState_cases _ _ _).mono ?_
  rintro s' ⟨poll, hpoll, ⟨-, rfl⟩ | ⟨hge, -⟩⟩
  · show (adjustedWarmup s.si conf.pollPeriod
      (newWindows conf.metaparam conf.pollPeriod s.win) - n) * poll.pollPeriod = warmupTime conf
    rw [adjustedWarmup_new, hsi, if_neg hn, Nat.add_sub_cancel, hpoll]
    rfl
  · -- the full phase has not begun
    rw [hsi] at hge
    exact absurd hwarm (Nat.not_lt.mpr hge)

/-- A change in warmup does not shorten what is left, if and only if an entire warmup of the new
configuration takes as long. -/
theorem warmupLeft_mono_iff (cs : List (Call D)) (conf : Config D) :
    Returns (run cs) fun s => conf.algoUpdate = true → cs ≠ [] → cs.length < s.win.warmupWin →
      Returns (reactToUpdate conf (nextStamp conf s)) fun s' =>
        (warmupLeft cs.length s ≤ warmupLeft cs.length s' ↔
          warmupLeft cs.length s ≤ warmupTime conf) := by
  cases cs with
  | nil => exact Returns.pure fun _ hne => absurd rfl hne
  | cons c cs =>
    refine (run_running (follows_stampsOf (c :: cs))).mono fun s h hupd _ hwarm => ?_
    have hpos := h.pos
    have hidx := h.idx
    have hstart := h.starting conf
    have hnext : nextStamp conf s = { s with stampI := s.stampI + 1 } :=
      nextStamp_later conf (by omega)
    rw [hnext] at hstart ⊢
    refine (reactToUpdate_warmupLeft conf (Nat.pos_iff_ne_zero.mp hpos) hstart hupd
      hwarm).mono fun s' hleft => ?_
    rw [hleft]

/-- The defaults, with the longest polling period. -/
def everyThousand : Config Float := pollEvery 10

/-- The same, with a polling period that has just been changed to a second. -/
def hurried : Config Float := pollSet 0

/-- A second stamp, with the update to come. -/
theorem warmupLeft_hurried :
    Returns (run [⟨everyThousand, ⟨steady 0, false, 0⟩⟩]) fun s => 1 < s.win.warmupWin →
      Returns (reactToUpdate hurried (nextStamp hurried s)) fun s' =>
        (warmupLeft 1 s ≤ warmupLeft 1 s' ↔ warmupLeft 1 s ≤ warmupTime hurried) :=
  (warmupLeft_mono_iff [⟨everyThousand, ⟨steady 0, false, 0⟩⟩] hurried).mono
    fun _ h hwarm => h (by decide) (List.cons_ne_nil _ _) hwarm

theorem everyThousand_begins :
    ((run [⟨everyThousand, ⟨steady 0, false, 0⟩⟩]).res.map
      fun s => (s.win.warmupWin, warmupLeft 1 s)) = some (100, 101376) := by
  decide +kernel

theorem hurried_update :
    ((run [⟨everyThousand, ⟨steady 0, false, 0⟩⟩] >>=
      fun s => reactToUpdate hurried (nextStamp hurried s)).res.map (warmupLeft 1)) =
        some 7680 := by
  decide +kernel

/-- Of 28 hours of warmup, a polling period of a second leaves two. -/
theorem not_warmupLeft_mono : ¬ ∀ (cs : List (Call Float)) (conf : Config Float),
    Returns (run cs) fun s => conf.algoUpdate = true → cs ≠ [] → cs.length < s.win.warmupWin →
      Returns (reactToUpdate conf (nextStamp conf s)) fun s' =>
        warmupLeft cs.length s ≤ warmupLeft cs.length s' := by
  intro hall
  obtain ⟨s, hres, hs⟩ := Option.map_eq_some_iff.mp everyThousand_begins
  obtain ⟨hW, hleft⟩ := Prod.mk.inj hs
  obtain ⟨s', hres', hleft'⟩ := Option.map_eq_some_iff.mp hurried_update
  rw [bind_res_some] at hres'
  obtain ⟨s₁, hres₁, hres'⟩ := hres'
  obtain rfl : s₁ = s := Option.some.inj (hres₁.symm.trans hres)
  have hle := hall _ hurried s₁ hres (by decide) (List.cons_ne_nil _ _)
    (show 1 < s₁.win.warmupWin by omega) s' hres'
  change warmupLeft 1 s₁ ≤ warmupLeft 1 s' at hle
  omega

end RADclock
