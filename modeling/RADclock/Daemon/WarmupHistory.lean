import RADclock.Daemon.Capacity
import RADclock.Sync.Indexing

/-!
# The histories of a run, in warmup and after it

- `indexed_iff_warmup`: all histories are indexed by stamp number as long as warmup lasts. With
  the defaults, the first stamp after it leaves the histories of the OWD estimates with another
  index than the stamp's (`not_indexed_default`).
- `warmup_whole_of_fits`: warmup loses no item if its window fits an `unsigned int`. `skm_scale`
  has no upper bound in the configuration file: the warmup window grows with it and is kept in 64
  bits, but the size of a history is its low 32 bits (`not_whole_longScale`).
-/

namespace RADclock

open Lib Lib.Exec

section Runs

variable {D : Type} [Arith D]

/-! ## Indexed by stamp number -/

/-- After stamp `i` of any run, with any configuration changes, all histories that have been
added to are indexed by stamp number if and only if warmup is not over. The histories that are
added to from the first stamp on always are, and what they were given are the stamps of the run
and their RTTs. A resize, to whatever sizes, changes nothing of this, and loses no item that
still has a slot. -/
theorem indexed_iff_warmup (c : Call D) (cs : List (Call D)) :
    Returns (run (c :: cs)) fun s =>
      (∀ h, (h = s.hist ∨ ∃ sz, h = resizeHists sz s.hist) →
        (AllIndexed cs.length h ↔ cs.length < s.win.warmupWin) ∧
        Indexed cs.length h.stamp ∧ Indexed cs.length h.RTT ∧
        Indexed cs.length h.Df ∧ Indexed cs.length h.Db ∧
        Indexed cs.length h.thnaive ∧ OfRun (stampsOf (c :: cs)) (cs.length + 1) h) ∧
      ∀ sz, AllSpared sz s.hist (resizeHists sz s.hist) := by
  refine (run_hist false (List.cons_ne_nil c cs) (follows_stampsOf (c :: cs))
    fun h => (nomatch h)).mono fun s hinv => ⟨fun h hcase => ?_, fun sz => allSpared_resize sz _⟩
  have hs : Series (stampsOf (c :: cs)) none (cs.length + 1) (cs.length + 1) (cs.length + 1) h ∧
      (AllIndexed cs.length h ↔ cs.length < s.win.warmupWin) := by
    rcases hcase with rfl | ⟨sz, rfl⟩
    · exact ⟨hinv.series, hinv.allIndexed_iff⟩
    · exact ⟨hinv.series.resize sz, hinv.allIndexed_resized_iff sz⟩
  obtain ⟨hs, hiff⟩ := hs
  exact ⟨hiff, hs.stamp.indexed, hs.RTT.indexed, hs.Df.indexed, hs.Db.indexed,
    hs.thnaive.indexed, hs.ofRun⟩

end Runs

/-! ## Runs under the defaults -/

/-- Under a configuration without changes, the windows only have to fit once. -/
theorem warmupFits_under {D : Type} [Arith D] {conf : Config D} (hupd : conf.algoUpdate = false)
    (hfit : requiredWarmup conf < 2 ^ 32) (inps : List (Input D)) (s : AlgoState D) :
    RunMeets (fun c s => WarmupFits c.conf s) (under conf inps) s := by
  refine RunMeets.of_forall (fun c hc s => ?_) s
  obtain ⟨inp, -, rfl⟩ := List.mem_map.mp hc
  rintro (hfirst | ⟨hup, -⟩)
  · rw [hfirst]
    exact hfit
  · rw [hupd] at hup
    cases hup

/-- The defaults, with the polling period of 16 seconds. -/
def everySixteen : Config Float := pollEvery 4

theorem startWindows_everySixteen : (startWindows everySixteen).warmupWin = 480 ∧
    (startWindows everySixteen).shiftWin = 100 := by decide +kernel

theorem requiredWarmup_everySixteen : requiredWarmup everySixteen = 480 := by decide +kernel

theorem inputsOf_ne_nil {D : Type} [Arith D] (conf : Config D) (F : Nat → BidirStamp D) (n : Nat) :
    under conf (inputsOf F (n + 1)) ≠ [] := by
  simp [under, inputsOf]

theorem length_under_inputsOf {D : Type} [Arith D] (conf : Config D) (F : Nat → BidirStamp D)
    (n : Nat) : (under conf (inputsOf F n)).length = n := by
  simp [under, inputsOf]

/-- Runs under the defaults go through. -/
theorem run_everySixteen (n : Nat) :
    ∃ s, (run (under everySixteen (inputsOf steady (n + 1)))).res = some s ∧
      InRun steady (startWindows everySixteen) (n + 1) s ∧ HistInv steady true (n + 1) s := by
  obtain ⟨hW, hshift⟩ := startWindows_everySixteen
  have hfits : requiredWarmup everySixteen < 2 ^ 32 := by
    rw [requiredWarmup_everySixteen]
    decide
  have hf : Follows (steady : Nat → BidirStamp Float) 0
    (under everySixteen (inputsOf steady (n + 1))) := follows_inputsOf steady (n + 1)
  have hinv := run_hist true (inputsOf_ne_nil everySixteen steady n) hf fun _ =>
    warmupFits_under (by decide) hfits (inputsOf steady (n + 1)) AlgoState.zero
  rw [length_under_inputsOf] at hinv
  have hlen : (inputsOf (steady : Nat → BidirStamp Float) (n + 1)).length = n + 1 := by
    simp [inputsOf]
  generalize inputsOf (steady : Nat → BidirStamp Float) (n + 1) = inps at hinv hf hlen ⊢
  cases inps with
  | nil => cases hlen
  | cons inp inps =>
    have hrun := run_held (by decide) (by rw [hW]; decide)
      (by rw [hW, hshift]; decide) inp inps hf
    obtain ⟨s, hres, hs⟩ := hrun.exists_res
    rw [Nat.add_comm, show inps.length = n from Nat.succ.inj hlen] at hs
    exact ⟨s, hres, hs, hinv s hres⟩

/-- The stamp after warmup: index 480 of the run, but `0` in the new histories. -/
theorem not_indexed_default :
    ∃ s, (run (under everySixteen (inputsOf steady 481))).res = some s ∧
      ¬ AllIndexed 480 s.hist := by
  obtain ⟨s, hres, hrun, hinv⟩ := run_everySixteen 480
  refine ⟨s, hres, fun hall => ?_⟩
  have hlt := hinv.allIndexed_iff.mp hall
  obtain ⟨hW, -⟩ := startWindows_everySixteen
  rcases hrun with hwarm | hfull
  · have := hwarm.more
    omega
  · -- were the warmup window 481, so would be the size of the histories
    rw [hW] at hfull
    have hle := hfull.full
    obtain ⟨-, -, hseries⟩ := hinv.warm (by omega)
    have hsz := (hseries.stamp.2 _ rfl).1
    have hsz' : s.hist.stamp.bufferSz = 480 := hfull.stock.stock.stamp.size
    omega

/-! ## Nothing is lost in warmup -/

/-- In every run, as long as the warmup windows it is given fit an `unsigned int`, warmup loses
no item, be it when a stamp is recorded or at the end of a call: every index up to the last stamp
finds what was added for it, for the stamps and RTTs those of the run. Warmup and shift windows
fit into half the history window. -/
theorem warmup_whole_of_fits {D : Type} [Arith D] (cs : List (Call D)) (c : Call D)
    (hm : RunMeets (fun c s => WarmupFits c.conf s) (cs ++ [c]) AlgoState.zero) :
    (Returns (run cs >>= beginCall c) fun s => cs.length < s.win.warmupWin →
      HoldsAll cs.length s.hist.stamp ∧ HoldsAll cs.length s.hist.RTT ∧
        OfRun (stampsOf (cs ++ [c])) (cs.length + 1) s.hist) ∧
    (Returns (run (cs ++ [c])) fun s => cs.length < s.win.warmupWin →
      WarmupWhole cs.length s ∧ OfRun (stampsOf (cs ++ [c])) (cs.length + 1) s.hist) := by
  have hf := follows_stampsOf (cs ++ [c])
  generalize stampsOf (cs ++ [c]) = F at hf ⊢
  obtain ⟨hleft, hright⟩ := RunMeets.append cs [c] _ hm
  constructor
  · have hc : c.inp.stamp = F cs.length := by
      have hlast := hf.right.head
      rw [Nat.zero_add] at hlast
      exact hlast
    intro s'' hres
    obtain ⟨s, hrun, hbegin⟩ := bind_res_some.mp hres
    have hfit : WarmupFits c.conf s := (hright s hrun).1
    -- while the warmup goes on, its histories hold every item
    have hseries : cs.length < s''.win.warmupWin →
        Series F (some s''.win.warmupWin) (cs.length + 1) cs.length cs.length s''.hist := by
      -- the update comes before the first stamp or after some
      cases cs with
      | nil =>
        have hs : AlgoState.zero = s := Option.some.inj hrun
        subst hs
        have hw : Warming F true 0 (nextStamp c.conf (AlgoState.zero : AlgoState D)) :=
          warming_first c.conf fun _ => hfit
        exact fun _ => beginCall_warming c hc hw (fun _ _ => hfit (Or.inl rfl)) s'' hbegin
      | cons c₀ cs =>
        have hinv := run_hist true (List.cons_ne_nil c₀ cs) hf.left (fun _ => hleft) s hrun
        exact beginCall_whole c hc hinv hfit s'' hbegin
    intro hlt
    have hs := hseries hlt
    exact ⟨hs.stamp.holdsAll hlt, hs.RTT.holdsAll hlt, hs.ofRun⟩
  · -- and again after the call
    have hinv := run_hist true (List.concat_ne_nil c cs) hf fun _ => hm
    rw [List.length_append] at hinv
    refine hinv.mono fun s h hlt => ?_
    obtain ⟨hhalf, -, hs⟩ := h.warm hlt
    exact ⟨⟨hs.stamp.holdsAll hlt, hs.RTT.holdsAll hlt, hs.Df.holdsAll hlt, hs.Db.holdsAll hlt,
      hs.thnaive.holdsAll hlt, hhalf⟩, hs.ofRun⟩

theorem warmup_whole_default :
    ∃ s, (run (under everySixteen (inputsOf steady 3))).res = some s ∧
      2 < s.win.warmupWin ∧ WarmupWhole 2 s ∧
        OfRun (stampsOf (under everySixteen (inputsOf steady 3)))
        3 s.hist := by
  obtain ⟨s, hres, -, hinv⟩ := run_everySixteen 2
  have hundred := hinv.hundred
  have hfits : requiredWarmup everySixteen < 2 ^ 32 := by
    rw [requiredWarmup_everySixteen]
    decide
  have hmeets := warmupFits_under (by decide) hfits (inputsOf steady 3) AlgoState.zero
  exact ⟨s, hres, by omega, (warmup_whole_of_fits (under everySixteen (inputsOf steady 2))
    ⟨everySixteen, ⟨steady 2, false, 0⟩⟩ hmeets).2 s hres (show 2 < s.win.warmupWin by omega)⟩

/-- `skm_scale` of 109 years: warmup takes `6 * 2 ^ 32 + 1` stamps, and the histories get one
slot. -/
def longScale : Config Float :=
  { pollEvery 0 with
    metaparam := { defaultMetaparam with SKM_SCALE := 3435973837.0 } }

theorem longScale_begins :
    ((run (under longScale (inputsOf steady 1)) >>=
      beginCall ⟨longScale, ⟨steady 1, false, 0⟩⟩).res.map
        fun s => (s.win.warmupWin, s.hist.stamp.oldestI)) = some (25769803777, 1) := by
  decide +kernel

/-- The second stamp of warmup overwrites the first. -/
theorem not_whole_longScale :
    ¬ Returns (run (under longScale (inputsOf steady 1)) >>=
        beginCall ⟨longScale, ⟨steady 1, false, 0⟩⟩) fun s => 1 < s.win.warmupWin →
          HoldsAll 1 s.hist.stamp ∧ HoldsAll 1 s.hist.RTT ∧
            OfRun (stampsOf (under longScale (inputsOf steady 2))) 2 s.hist := by
  intro h
  obtain ⟨s, hres, hs⟩ := Option.map_eq_some_iff.mp longScale_begins
  obtain ⟨hW, hold⟩ := Prod.mk.injEq .. ▸ hs
  have hzero := (h s hres (by omega)).1.1
  omega

end RADclock
