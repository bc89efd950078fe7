import RADclock.Daemon.Process
import RADclock.Lib.Runs

/-!
# Servers side by side (`pthread_dataproc.c`)

The daemon runs one algorithm for each server, on stamps that come in any order, with one
configuration and one update mask for all of them.

- `callsOf`: the calls of the algorithm that a run of the daemon makes for a server.
- `state_eq_run`: what a server is left with is a run of the algorithm on them.
- `isolated`: while no update is pending, the stamps of the other servers make no difference.
-/

namespace RADclock

open Lib Lib.Exec

section Isolation

variable {D : Type} [Arith D] {sID : Nat} {h g : Handle D}

/-! ## The run of one server -/

/-- The call that `process_stamp` makes for the server. -/
def Handle.callOf (sID : Nat) (h : Handle D) : Action D → Option (Call D)
  | .stamp p => if p.sID = sID ∧ h.rejects p = false then some ⟨h.conf, h.input p⟩ else none
  | .rehash _ => none
  | .trust _ => none

/-- All calls for the server along a run. -/
def callsOf (sID : Nat) : List (Action D) → Handle D → List (Call D)
  | [], _ => []
  | a :: as, h =>
    (h.callOf sID a).toList ++
      match (act a h).res with
      | some h' => callsOf sID as h'
      | none => []

/-- An action calls the algorithm of the server, or leaves its state alone. -/
theorem act_state (a : Action D) (h : Handle D) : Returns (act a h) fun h' =>
    (runFrom (h.callOf sID a).toList (h.state sID)).res = some (h'.state sID) := by
  cases a with
  | rehash conf => exact Returns.pure rfl
  | trust servertrust => exact Returns.pure rfl
  | stamp p =>
    refine (processStamp_cases p h).mono ?_
    rintro h' ⟨-, ⟨hrej, hstate, -⟩ | ⟨hpass, s', hs', hstate, -⟩⟩
    · rw [Handle.callOf, if_neg (fun hcall => Bool.false_ne_true (hcall.2.symm.trans hrej)), hstate]
      rfl
    · rw [hstate]
      by_cases hsID : p.sID = sID
      · subst hsID
        rw [Handle.callOf, if_pos ⟨rfl, hpass⟩, Function.update_self]
        exact bind_res_some.mpr ⟨s', hs', rfl⟩
      · rw [Handle.callOf, if_neg (fun hcall => hsID hcall.1), Function.update_of_ne (Ne.symm hsID)]
        rfl

theorem runActions_state (as : List (Action D)) : ∀ h, Returns (runActions as h) fun h' =>
    (runFrom (callsOf sID as h) (h.state sID)).res = some (h'.state sID) := by
  induction as with
  | nil => exact fun h => Returns.pure rfl
  | cons a as ih =>
    intro h h' hres
    obtain ⟨h₁, hact, hrest⟩ := bind_res_some.mp hres
    have hcalls : callsOf sID (a :: as) h = (h.callOf sID a).toList ++ callsOf sID as h₁ := by
      rw [callsOf, hact]
    rw [hcalls, runFrom_append]
    exact bind_res_some.mpr ⟨_, act_state a h h₁ hact, ih h₁ h' hrest⟩

/-- The stamps of the calls are stamps of the server, in the order they came. -/
theorem callsOf_stamps (as : List (Action D)) : ∀ h : Handle D,
    ((callsOf sID as h).map fun c => c.inp.stamp).Sublist
      ((as.filterMap (Action.stampOf sID)).map StampT.bst) := by
  -- on the actions; the handle each starts from does not matter
  induction as with
  | nil => exact fun h => List.Sublist.refl _
  | cons a as ih =>
    intro h
    -- a call that fails ends the run, which drops the rest
    have htail : ((match (act a h).res with
        | some h' => callsOf sID as h'
        | none => []).map fun c : Call D => c.inp.stamp).Sublist
          ((as.filterMap (Action.stampOf sID)).map StampT.bst) := by
      split
      · exact ih _
      · exact List.nil_sublist _
    -- an action makes one call or none, and only for its own server
    have hhead : ((h.callOf sID a).toList.map fun c => c.inp.stamp).Sublist
        ((a.stampOf sID).toList.map StampT.bst) := by
      cases a with
      | rehash conf => exact List.nil_sublist _
      | trust servertrust => exact List.nil_sublist _
      | stamp p =>
        by_cases hcall : p.sID = sID ∧ h.rejects p = false
        · rw [Handle.callOf, if_pos hcall, Action.stampOf, if_pos hcall.1]
          exact List.Sublist.refl _
        · rw [Handle.callOf, if_neg hcall]
          exact List.nil_sublist _
    rw [callsOf, List.map_append]
    have hsplit : ((a :: as).filterMap (Action.stampOf sID)).map StampT.bst =
        ((a.stampOf sID).toList.map StampT.bst) ++
          (as.filterMap (Action.stampOf sID)).map StampT.bst := by
      rw [List.filterMap_cons]
      cases a.stampOf sID <;> rfl
    rw [hsplit]
    exact hhead.append htail

/-- Whatever the other servers do, and with any changes of the configuration: what a server is left
with is a run of the algorithm from initialisation on stamps of its own. -/
theorem state_eq_run (conf : Config D) (as : List (Action D)) :
    Returns (runActions as (Handle.init conf)) fun h => ∀ sID,
      (run (callsOf sID as (Handle.init conf))).res = some (h.state sID) ∧
        ((callsOf sID as (Handle.init conf)).map fun c => c.inp.stamp).Sublist
          ((as.filterMap (Action.stampOf sID)).map StampT.bst) :=
  fun h hres _ => ⟨runActions_state as _ h hres, callsOf_stamps as _⟩

/-! ## Isolation -/

/-- Everything but the stamps of other servers. -/
def Action.concerns (sID : Nat) : Action D → Bool
  | .stamp p => p.sID == sID
  | .rehash _ => true
  | .trust _ => true

/-- A rehash that changes nothing the algorithm is configured by. -/
def Action.Quiet : Action D → Prop
  | .stamp _ => True
  | .rehash conf => conf.algoUpdate = false
  | .trust _ => True

/-- Two daemons between which the server can tell no difference. The masks may differ in bits that
the algorithm does not test. -/
structure Alike (sID : Nat) (h g : Handle D) : Prop where
  conf : ∃ mask, g.conf = { h.conf with mask := mask }
  quiet : h.conf.algoUpdate = false
  quiet' : g.conf.algoUpdate = false
  trust : g.servertrust = h.servertrust
  laststamp : g.laststamp sID = h.laststamp sID
  state : g.state sID = h.state sID

omit [Arith D] in
theorem algoUpdate_noUpdate (conf : Config D) :
    ({ conf with mask := UPDMASK_NOUPD } : Config D).algoUpdate = false := by
  unfold Config.algoUpdate
  dsimp only
  decide

/-- The mask makes no difference but by the update it signals. -/
theorem RADalgoBidir_quiet {conf : Config D} (hquiet : conf.algoUpdate = false) {mask : UInt32}
    (hquiet' : ({ conf with mask := mask } : Config D).algoUpdate = false) (inp : Input D)
    (s : AlgoState D) :
    RADalgoBidir { conf with mask := mask } inp s = RADalgoBidir conf inp s := by
  unfold RADalgoBidir reactToUpdate
  rw [hquiet, hquiet']
  rfl

variable {p : Popped D}

theorem Alike.rejects (h₀ : Alike p.sID h g) : g.rejects p = h.rejects p := by
  unfold Handle.rejects Handle.trusted
  rw [h₀.state, h₀.laststamp, h₀.trust]

omit [Arith D] in
theorem Alike.input (h₀ : Alike p.sID h g) : g.input p = h.input p := by
  unfold Handle.input
  rw [h₀.state, h₀.laststamp]

theorem Alike.call (h₀ : Alike p.sID h g) :
    RADalgoBidir g.conf (g.input p) (g.state p.sID) =
      RADalgoBidir h.conf (h.input p) (h.state p.sID) := by
  obtain ⟨mask, hconf⟩ := h₀.conf
  have hquiet' := h₀.quiet'
  rw [hconf] at hquiet'
  rw [h₀.input, h₀.state, hconf, RADalgoBidir_quiet h₀.quiet hquiet']

omit [Arith D] in
theorem Alike.clearMask (h₀ : Alike sID h g) : Alike sID h.clearMask g.clearMask := by
  obtain ⟨mask, hconf⟩ := h₀.conf
  refine ⟨⟨UPDMASK_NOUPD, ?_⟩, algoUpdate_noUpdate _, algoUpdate_noUpdate _, h₀.trust,
    h₀.laststamp, h₀.state⟩
  show ({ g.conf with mask := UPDMASK_NOUPD } : Config D) = _
  rw [hconf]
  rfl

omit [Arith D] in
/-- The daemon on the left goes on with another server. -/
theorem Alike.other (h₀ : Alike sID h g) (hne : p.sID ≠ sID) (s : AlgoState D) :
    Alike sID (h.record p) g ∧
      Alike sID { h.record p with state := Function.update h.state p.sID s } g ∧
        Alike sID (Handle.clearMask
          { h.record p with state := Function.update h.state p.sID s }) g := by
  have hlast : g.laststamp sID = (h.record p).laststamp sID := by
    show _ = Function.update h.laststamp p.sID p.stamp sID
    rw [Function.update_of_ne (Ne.symm hne)]
    exact h₀.laststamp
  have hstate : g.state sID = Function.update h.state p.sID s sID := by
    rw [Function.update_of_ne (Ne.symm hne)]
    exact h₀.state
  obtain ⟨mask, hconf⟩ := h₀.conf
  exact ⟨⟨⟨mask, hconf⟩, h₀.quiet, h₀.quiet', h₀.trust, hlast, h₀.state⟩,
    ⟨⟨mask, hconf⟩, h₀.quiet, h₀.quiet', h₀.trust, hlast, hstate⟩,
    ⟨⟨mask, hconf⟩, algoUpdate_noUpdate _, h₀.quiet', h₀.trust, hlast, hstate⟩⟩

/-- A stamp of the server itself. -/
theorem processStamp_alike (h₀ : Alike p.sID h g) : Returns (processStamp p h) fun h' =>
    ∃ g', (processStamp p g).res = some g' ∧ Alike p.sID h' g' := by
  -- both handles reject the same packets
  have hrej := h₀.rejects
  refine Returns.ite (fun hyes => Returns.pure ?_) fun hno => ?_
  · refine ⟨g.record p, ?_, ⟨h₀.conf, h₀.quiet, h₀.quiet', h₀.trust, ?_, h₀.state⟩⟩
    · unfold processStamp
      rw [hrej, if_pos hyes]
      rfl
    · show Function.update _ _ _ _ = Function.update _ _ _ _
      rw [Function.update_self, Function.update_self]
  · -- the server's states agree, so the algorithm returns the same one
    refine Returns.bind (Q := fun s' =>
      (RADalgoBidir h.conf (h.input p) (h.state p.sID)).res = some s') (fun _ hr => hr)
        fun s' hs' => Returns.pure ?_
    rw [← h₀.call] at hs'
    have hboth : Alike p.sID { h.record p with state := Function.update h.state p.sID s' }
        { g.record p with state := Function.update g.state p.sID s' } := by
      refine ⟨h₀.conf, h₀.quiet, h₀.quiet', h₀.trust, ?_, ?_⟩
      · show Function.update _ _ _ _ = Function.update _ _ _ _
        rw [Function.update_self, Function.update_self]
      · show Function.update _ _ _ _ = Function.update _ _ _ _
        rw [Function.update_self, Function.update_self]
    have hres : (processStamp p g).res = some (if p.returnsEarly then
        { g.record p with state := Function.update g.state p.sID s' }
        else Handle.clearMask { g.record p with state := Function.update g.state p.sID s' }) := by
      unfold processStamp
      rw [hrej, if_neg hno]
      exact bind_res_some.mpr ⟨s', hs', rfl⟩
    refine ⟨_, hres, ?_⟩
    cases p.returnsEarly with
    | true => exact hboth
    | false => exact hboth.clearMask

/-- A stamp of another server. -/
theorem processStamp_other (h₀ : Alike sID h g) (hne : p.sID ≠ sID) :
    Returns (processStamp p h) fun h' => Alike sID h' g := by
  refine Returns.ite (fun _ => Returns.pure (h₀.other hne (h.state p.sID)).1) fun _ => ?_
  refine Returns.skip fun s' => Returns.pure ?_
  cases p.returnsEarly with
  | true => exact (h₀.other hne s').2.1
  | false => exact (h₀.other hne s').2.2

theorem act_alike {a : Action D} (hq : a.Quiet) (hk : a.concerns sID = true)
    (h₀ : Alike sID h g) : Returns (act a h) fun h' =>
      ∃ g', (act a g).res = some g' ∧ Alike sID h' g' := by
  cases a with
  | stamp p =>
    obtain rfl : p.sID = sID := beq_iff_eq.mp hk
    exact processStamp_alike h₀
  | rehash conf => exact Returns.pure ⟨_, rfl, ⟨conf.mask, rfl⟩, hq, hq, h₀.trust, h₀.laststamp,
      h₀.state⟩
  | trust servertrust => exact Returns.pure ⟨_, rfl, h₀.conf, h₀.quiet, h₀.quiet', rfl,
      h₀.laststamp, h₀.state⟩

theorem act_other {a : Action D} (hk : a.concerns sID = false) (h₀ : Alike sID h g) :
    Returns (act a h) fun h' => Alike sID h' g := by
  cases a with
  | stamp p => exact processStamp_other h₀ (beq_eq_false_iff_ne.mp hk)
  | rehash conf => cases hk
  | trust servertrust => cases hk

theorem runActions_steps {as : List (Action D)} : ∀ {h h' : Handle D},
    (runActions as h).res = some h' ↔ Steps (fun h a => (act a h).res) h as h' := by
  induction as with
  | nil =>
    intro h h'
    constructor
    · intro hres
      obtain rfl := Option.some.inj hres
      exact .nil h
    · rintro ⟨⟩
      rfl
  | cons a as ih =>
    intro h h'
    constructor
    · intro hres
      obtain ⟨h₁, hact, hrest⟩ := bind_res_some.mp hres
      exact .cons hact (ih.mp hrest)
    · intro hsteps
      cases hsteps with
      | cons head tail => exact bind_res_some.mpr ⟨_, head, ih.mpr tail⟩

/-- While no update of the algorithm is pending, servers do not meet: a server ends in the state
it has without the stamps of the others, wherever these come. -/
theorem isolated {conf : Config D} (hconf : conf.algoUpdate = false) {as : List (Action D)}
    (hquiet : ∀ a ∈ as, a.Quiet) (sID : Nat) :
    Returns (runActions as (Handle.init conf)) fun h =>
      ∃ g, (runActions (as.filter (Action.concerns sID)) (Handle.init conf)).res = some g ∧
        g.state sID = h.state sID ∧ g.laststamp sID = h.laststamp sID := by
  intro h hres
  have hinit : Alike sID (Handle.init conf) (Handle.init conf) :=
    ⟨⟨conf.mask, rfl⟩, hconf, hconf, rfl, rfl, rfl⟩
  have hkeep (h : Handle D) (a : Action D) (h' g : Handle D) (hq : a.Quiet)
      (hk : a.concerns sID = true) (h₀ : Alike sID h g) (hstep : (act a h).res = some h') :
      ∃ g', (act a g).res = some g' ∧ Alike sID h' g' := act_alike hq hk h₀ h' hstep
  have hskip (h : Handle D) (a : Action D) (h' g : Handle D) (_ : a.Quiet)
      (hk : a.concerns sID = false) (h₀ : Alike sID h g) (hstep : (act a h).res = some h') :
      Alike sID h' g := act_other hk h₀ h' hstep
  obtain ⟨g, hg, hend⟩ := (runActions_steps.mp hres).filter hkeep hskip hquiet _ hinit
  exact ⟨g, runActions_steps.mpr hg, hend.state, hend.laststamp⟩

/-- Another server begins before, and is heard of after. -/
def interleaved : List (Action Float) :=
  [.stamp (popped 1 1000 1), .stamp (popped 0 1500 1), .stamp (popped 1 900 1)]

theorem isolated_interleaved : ∃ h g,
    (runActions interleaved (Handle.init defaults)).res = some h ∧
      (runActions [.stamp (popped 0 1500 1)] (Handle.init defaults)).res = some g ∧
        g.state 0 = h.state 0 := by
  have hsome : (runActions interleaved (Handle.init defaults)).res.isSome = true := by
    decide +kernel
  obtain ⟨h, hres⟩ := Option.isSome_iff_exists.mp hsome
  have hquiet : ∀ a ∈ interleaved, a.Quiet := by
    simp [interleaved, Action.Quiet]
  obtain ⟨g, hg, hstate, -⟩ := isolated (by decide) hquiet 0 h hres
  exact ⟨h, g, hres, hg, hstate⟩

end Isolation

end RADclock
