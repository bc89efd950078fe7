import RADclock.Capture.Delivery

/-!
# The order of the stamps delivered (`create_stamp.c`)

Full stamps should never be removed out of order. The halves that would be, once they are filled,
are cleaned out with each full stamp: of its server those with an older `Ta`, and of any server
those with an older `Tf`. A comparison with a freed element is taken to find the element unchanged.

- `Increasing`: the counter values of the halves pushed go up.
- `Ordered`: what the halves that are left have to do with the stamps delivered.
- `stampRun_ordered`: the stamps of any run are in order.
-/

namespace RADclock.Capture

open Lib Ntp

section Order

/-- The counter values of the halves that are pushed are past `t`, and go up. -/
def Increasing (D : Type) [Arith D] (host : Host) (inetNtop : SockAddr → Text) :
    VCounter → List NetPacket → Prop
  | _, [] => True
  | t, p :: ps =>
    match pushOf (D := D) host inetNtop p, getVcount host p.packet with
    | some _, some vcount => t < vcount ∧ Increasing D host inetNtop vcount ps
    | _, _ => Increasing D host inetNtop t ps

variable {D : Type} [Arith D] {host : Host} {inetNtop : SockAddr → Text}

/-- The order in which stamps are to be delivered. -/
def InTurn (before after : StampT D) : Prop :=
  (before.serverIpaddr = after.serverIpaddr → before.bst.Ta < after.bst.Ta) ∧
    before.bst.Tf < after.bst.Tf

/-- A half that may be filled and delivered after `done`, and is not past `t`. -/
structure Later (done : List (StampT D)) (t : VCounter) (u : StampT D) : Prop where
  Ta_le : u.bst.Ta ≤ t
  Tf_le : u.bst.Tf ≤ t
  client : ClientHalf u → ∀ d ∈ done, d.serverIpaddr = u.serverIpaddr → d.bst.Ta < u.bst.Ta
  server : ServerHalf u → ∀ d ∈ done, d.bst.Tf < u.bst.Tf

/-- Two halves of one kind have different counter values. -/
def Apart (u u' : StampT D) : Prop :=
  (ClientHalf u → ClientHalf u' → u.bst.Ta ≠ u'.bst.Ta) ∧
    (ServerHalf u → ServerHalf u' → u.bst.Tf ≠ u'.bst.Tf)

/-- The queue after the stamps `done`, at the counter value `t`. -/
structure Ordered (done : List (StampT D)) (t : VCounter) (q : List (StampT D)) : Prop where
  halved : Halved q
  later : ∀ u ∈ q, Later done t u
  apart : q.Pairwise Apart
  done_le : ∀ d ∈ done, d.bst.Ta ≤ t ∧ d.bst.Tf ≤ t
  inTurn : done.Pairwise InTurn

variable {done : List (StampT D)} {t t' : VCounter} {q q' us ws : List (StampT D)}
  {u stamp full left : StampT D} {p : NetPacket}

omit [Arith D] in
theorem Later.mono (h : Later done t u) (ht : t ≤ t') : Later done t' u :=
  ⟨UInt64.le_trans h.Ta_le ht, UInt64.le_trans h.Tf_le ht, h.client, h.server⟩

omit [Arith D] in
theorem Ordered.mono (h : Ordered done t q) (ht : t ≤ t') : Ordered done t' q where
  halved := h.halved
  later u hu := (h.later u hu).mono ht
  apart := h.apart
  done_le d hd := ⟨UInt64.le_trans (h.done_le d hd).1 ht, UInt64.le_trans (h.done_le d hd).2 ht⟩
  inTurn := h.inTurn

/-! ## One packet -/

/-- The halves that are pushed carry the counter value of the packet. -/
theorem pushOf_vcount {mode : Int} {new : StampT D} {vcount : VCounter}
    (hp : pushOf host inetNtop p = some (mode, new)) (hv : getVcount host p.packet = some vcount) :
    mode = modeClient ∧ new.bst.Ta = vcount ∨ mode = modeServer ∧ new.bst.Tf = vcount := by
  obtain ⟨v, hv', hhalf⟩ := pushOf_some hp
  obtain rfl : v = vcount := Option.some.inj (hv'.symm.trans hv)
  exact hhalf

/-- An element as it is inserted: a half with the counter value, and nothing of the other one. -/
theorem pushed_half {mode : Int} {new : StampT D} {vcount : VCounter}
    (hp : pushOf host inetNtop p = some (mode, new)) (hv : getVcount host p.packet = some vcount)
    (id : UInt64) :
    let pushed := fillHalf mode new (blankStamp id)
    pushed.bst.Ta = vcount ∧ pushed.bst.Tf = 0 ∨ pushed.bst.Ta = 0 ∧ pushed.bst.Tf = vcount := by
  rcases pushOf_vcount hp hv with ⟨rfl, rfl⟩ | ⟨rfl, rfl⟩
  · exact Or.inl ⟨rfl, rfl⟩
  · exact Or.inr ⟨rfl, rfl⟩

/-- The two ways to complete a stamp at the counter value `vcount`. -/
inductive Matched (vcount : VCounter) (stamp full : StampT D) : Prop where
  | client (hhalf : ServerHalf stamp) (hTa : full.bst.Ta = vcount)
      (hTf : full.bst.Tf = stamp.bst.Tf)
  | server (hhalf : ClientHalf stamp) (hTa : full.bst.Ta = stamp.bst.Ta)
      (haddr : full.serverIpaddr = stamp.serverIpaddr) (hTf : full.bst.Tf = vcount)

theorem Completes.matched {vcount : VCounter} (hc : Completes host inetNtop p stamp full)
    (hv : getVcount host p.packet = some vcount) (hhalf : ClientHalf stamp ∨ ServerHalf stamp) :
    Matched vcount stamp full := by
  cases hc with
  | filled hp hid hnot =>
    rcases pushOf_vcount hp hv with ⟨rfl, rfl⟩ | ⟨rfl, rfl⟩
    · have hserver := hhalf.resolve_left fun hclient => hnot (Or.inl ⟨rfl, hclient.1⟩)
      exact .client hserver rfl rfl
    · have hclient := hhalf.resolve_right fun hserver => hnot (Or.inr ⟨rfl, hserver.2⟩)
      exact .server hclient rfl rfl rfl

omit [Arith D] in
theorem Apart.symm (h : Apart stamp u) : Apart u stamp :=
  ⟨fun hc hc' => (h.1 hc' hc).symm, fun hs hs' => (h.2 hs' hs).symm⟩

omit [Arith D] in
theorem apart_rest (h : (us ++ stamp :: ws).Pairwise Apart) : ∀ u ∈ us ++ ws, Apart stamp u := by
  obtain ⟨-, hright, hcross⟩ := List.pairwise_append.mp h
  intro u hu
  rcases List.mem_append.mp hu with hu | hu
  · exact (hcross u hu stamp List.mem_cons_self).symm
  · exact (List.pairwise_cons.mp hright).1 u hu

omit [Arith D] in
/-- A half that has just been pushed is apart from all halves. -/
theorem apart_pushed {vcount : VCounter} (hhalf : stamp.bst.Ta = vcount ∧ stamp.bst.Tf = 0 ∨
      stamp.bst.Ta = 0 ∧ stamp.bst.Tf = vcount) (ht : t < vcount) (hu : Later done t u) :
    Apart stamp u := by
  have hTa : u.bst.Ta ≠ vcount := fun h => UInt64.not_le.mpr ht (h ▸ hu.Ta_le)
  have hTf : u.bst.Tf ≠ vcount := fun h => UInt64.not_le.mpr ht (h ▸ hu.Tf_le)
  rcases hhalf with ⟨hs, hz⟩ | ⟨hz, hs⟩
  · exact ⟨fun _ _ => hs.trans_ne hTa.symm, fun hserver _ => absurd hz hserver.2⟩
  · exact ⟨fun hclient _ => absurd hz hclient.1, fun _ _ => hs.trans_ne hTf.symm⟩

omit [Arith D] in
/-- And it is later than all stamps. -/
theorem later_pushed {vcount : VCounter} (hhalf : stamp.bst.Ta = vcount ∧ stamp.bst.Tf = 0 ∨
      stamp.bst.Ta = 0 ∧ stamp.bst.Tf = vcount) (ht : t < vcount)
    (hdone : ∀ d ∈ done, d.bst.Ta ≤ t ∧ d.bst.Tf ≤ t) : Later done vcount stamp := by
  have hzero : (0 : VCounter) ≤ vcount := UInt64.zero_le
  rcases hhalf with ⟨hs, hz⟩ | ⟨hz, hs⟩
  · refine ⟨hs ▸ UInt64.le_refl _, hz ▸ hzero, fun _ d hd _ => ?_, fun hserver =>
      absurd hz hserver.2⟩
    exact hs ▸ UInt64.lt_of_le_of_lt (hdone d hd).1 ht
  · refine ⟨hz ▸ hzero, hs ▸ UInt64.le_refl _, fun hclient => absurd hz hclient.1, fun _ d hd => ?_⟩
    exact hs ▸ UInt64.lt_of_le_of_lt (hdone d hd).2 ht

omit [Arith D] in
/-- The stamp completed comes after those delivered before. -/
theorem Matched.inTurn {vcount : VCounter} (hm : Matched vcount stamp full) (ht : t < vcount)
    (hstamp : Later done t stamp) (hdone : ∀ d ∈ done, d.bst.Ta ≤ t ∧ d.bst.Tf ≤ t) :
    ∀ d ∈ done, InTurn d full := by
  intro d hd
  cases hm with
  | client hhalf hTa hTf =>
    rw [InTurn, hTa, hTf]
    exact ⟨fun _ => UInt64.lt_of_le_of_lt (hdone d hd).1 ht, hstamp.server hhalf d hd⟩
  | server hhalf hTa haddr hTf =>
    rw [InTurn, hTa, hTf, haddr]
    exact ⟨hstamp.client hhalf d hd, UInt64.lt_of_le_of_lt (hdone d hd).2 ht⟩

omit [Arith D] in
/-- A half that is not dangerous comes after the stamp completed. -/
theorem Matched.later {vcount : VCounter} (hm : Matched vcount stamp full) (ht : t < vcount)
    (hu : Later done t u) (hapart : Apart stamp u)
    (hsafe : ¬ Dangerous full.bst.Ta full u) : Later (done ++ [full]) vcount u := by
  -- a half kept in the queue has the later Ta or Tf, never an equal one
  have hclient : ClientHalf u → full.serverIpaddr = u.serverIpaddr → full.bst.Ta < u.bst.Ta := by
    intro hu' haddr
    have hle : full.bst.Ta ≤ u.bst.Ta :=
      UInt64.not_lt.mp fun hlt => hsafe (Or.inr ⟨⟨hu', hlt⟩, haddr.symm⟩)
    refine UInt64.lt_of_le_of_ne hle fun heq => ?_
    -- equality would make two requests or two replies of one counter
    cases hm with
    | client _ hTa => exact UInt64.not_le.mpr ht (hTa ▸ heq ▸ hu.Ta_le)
    | server hhalf hTa => exact hapart.1 hhalf hu' (hTa.symm.trans heq)
  have hserver : ServerHalf u → full.bst.Tf < u.bst.Tf := by
    intro hu'
    have hle : full.bst.Tf ≤ u.bst.Tf :=
      UInt64.not_lt.mp fun hlt => hsafe (Or.inl ⟨hu', hlt⟩)
    refine UInt64.lt_of_le_of_ne hle fun heq => ?_
    cases hm with
    | client hhalf _ hTf => exact hapart.2 hhalf hu' (hTf.symm.trans heq)
    | server _ _ _ hTf => exact UInt64.not_le.mpr ht (hTf ▸ heq ▸ hu.Tf_le)
  have hle := UInt64.le_of_lt ht
  refine ⟨UInt64.le_trans hu.Ta_le hle, UInt64.le_trans hu.Tf_le hle, fun hu' d hd haddr => ?_,
    fun hu' d hd => ?_⟩
  · rcases List.mem_append.mp hd with hd | hd
    · exact hu.client hu' d hd haddr
    · obtain rfl := List.mem_singleton.mp hd
      exact hclient hu' haddr
  · rcases List.mem_append.mp hd with hd | hd
    · exact hu.server hu' d hd
    · obtain rfl := List.mem_singleton.mp hd
      exact hserver hu'

omit [Arith D] in
theorem Matched.le {vcount : VCounter} (hm : Matched vcount stamp full) (ht : t < vcount)
    (hstamp : Later done t stamp) : full.bst.Ta ≤ vcount ∧ full.bst.Tf ≤ vcount := by
  have hle := UInt64.le_of_lt ht
  cases hm with
  | client _ hTa hTf =>
    exact ⟨hTa ▸ UInt64.le_refl _, hTf ▸ UInt64.le_trans hstamp.Tf_le hle⟩
  | server _ hTa _ hTf =>
    exact ⟨hTa ▸ UInt64.le_trans hstamp.Ta_le hle, hTf ▸ UInt64.le_refl _⟩

theorem Handled.ordered {vcount : VCounter} {o : Option (StampT D)}
    (hh : Handled host inetNtop (fun _ c => c) p q o q')
    (hv : getVcount host p.packet = some vcount) (ht : t < vcount) (h : Ordered done t q) :
    Ordered (done ++ o.toList) vcount q' := by
  have hne : getVcount host p.packet ≠ some 0 := by
    rw [hv]
    rintro heq
    exact UInt64.not_lt_zero (Option.some.inj heq ▸ ht)
  have hhalved := hh.halved hne h.halved
  have hmono := h.mono (UInt64.le_of_lt ht)
  cases hh with
  -- nothing delivered: at most one half more is in the queue
  | waits hw =>
    rw [Option.toList_none, List.append_nil]
    cases hw with
    | ignored => exact hmono
    | duplicate => exact hmono
    | pushed hp hq =>
      have hhalf := pushed_half hp hv
      have hsub := trimmed_sublist q
      refine ⟨hhalved, List.forall_mem_cons.mpr ⟨later_pushed (hhalf _) ht h.done_le, fun u hu =>
        hmono.later u (hsub.subset hu)⟩, List.pairwise_cons.mpr ⟨fun u hu => ?_,
        h.apart.sublist hsub⟩, hmono.done_le, h.inTurn⟩
      exact apart_pushed (hhalf _) ht (h.later u (hsub.subset hu))
  | @delivers us ws stamp full left hc hleft =>
    obtain ⟨_, c, rfl, rfl⟩ := hleft
    have hstamp := h.later stamp (by simp)
    -- one delivered: the halves kept are later than it
    have hm := hc.matched hv (h.halved.half stamp (by simp))
    have hsub : (kept c.val c.val us ++ kept c.val c.val ws).Sublist (us ++ stamp :: ws) :=
      kept_sublist _
    refine ⟨hhalved, fun u hu => ?_, h.apart.sublist hsub, fun d hd => ?_, ?_⟩
    · rw [kept, kept, ← List.filter_append] at hu
      obtain ⟨hu, hsafe⟩ := List.mem_filter.mp hu
      refine hm.later ht (h.later u ?_) (apart_rest h.apart u hu) (by simpa using hsafe)
      exact ((List.Sublist.refl us).append (List.sublist_cons_self stamp ws)).subset hu
    · rcases List.mem_append.mp hd with hd | hd
      · exact hmono.done_le d hd
      · obtain rfl := List.mem_singleton.mp hd
        exact hm.le ht hstamp
    · refine List.pairwise_append.mpr ⟨h.inTurn, List.pairwise_singleton _ _, fun d hd d' hd' => ?_⟩
      obtain rfl := List.mem_singleton.mp hd'
      exact hm.inTurn ht hstamp h.done_le d hd

/-- A packet without a half changes nothing. -/
theorem Handled.ignored {scrub : Nat → Cell (StampT D) → Cell (StampT D)} {o : Option (StampT D)}
    (hh : Handled host inetNtop scrub p q o q') (hp : pushOf (D := D) host inetNtop p = none) :
    o = none ∧ q' = q := by
  cases hh with
  | waits hw =>
    cases hw with
    | ignored => exact ⟨rfl, rfl⟩
    | duplicate hp' => exact nomatch hp.symm.trans hp'
    | pushed hp' => exact nomatch hp.symm.trans hp'
  | delivers hc =>
    cases hc with
    | filled hp' => exact nomatch hp.symm.trans hp'

/-! ## Runs -/

theorem HandledRun.ordered {ps : List NetPacket} {stamps : List (StampT D)}
    (hr : HandledRun host inetNtop (fun _ c => c) q ps stamps q')
    (hps : Increasing D host inetNtop t ps) (h : Ordered done t q) :
    (done ++ stamps).Pairwise InTurn := by
  induction hr generalizing done t with
  | nil =>
    rw [List.append_nil]
    exact h.inTurn
  | @cons q q' q'' p ps o stamps hp _ ih =>
    rw [← List.append_assoc]
    cases hpush : pushOf (D := D) host inetNtop p with
    | none =>
      obtain ⟨rfl, rfl⟩ := hp.ignored hpush
      rw [Option.toList_none, List.append_nil]
      simp only [Increasing, hpush] at hps
      exact ih hps h
    | some push =>
      obtain ⟨vcount, hv, -⟩ := pushOf_some hpush
      simp only [Increasing, hpush, hv] at hps
      exact ih hps.2 (hp.ordered hv hps.1 h)

theorem Increasing.of_append {ps ps' : List NetPacket}
    (h : Increasing D host inetNtop t (ps ++ ps')) :
    Increasing D host inetNtop t ps := by
  induction ps generalizing t with
  | nil => exact True.intro
  | cons p ps ih =>
    rw [List.cons_append] at h
    unfold Increasing at h ⊢
    split at h
    · exact ⟨h.1, ih h.2⟩
    · exact ih h

variable (inetNtop) in
/-- When the counter values of the halves pushed go up, so do the `Ta` of the stamps delivered for
each server, and the `Tf` of all stamps delivered. -/
theorem stampRun_ordered (runMode : RunMode) (arrivals : List (List NetPacket))
    (hv : ∀ p ∈ arrivals.flatten, getVcount host p.packet ≠ some 0)
    (hinc : Increasing D host inetNtop 0 arrivals.flatten) :
    ∃ (stamps : List (StampT D)) (packets : List NetPacket) (s : StampInput D),
      stampRun host inetNtop (fun _ c => c) runMode arrivals [] StampInput.init =
        some (stamps, packets, s) ∧
      stamps.Pairwise InTurn := by
  obtain ⟨stamps, packets, s, ps, hrun, hsplit, hhandled, -⟩ :=
    stampRun_init (D := D) inetNtop (fun _ c => c) runMode arrivals hv
  rw [hsplit] at hinc
  have hordered : Ordered ([] : List (StampT D)) 0 [] :=
    ⟨halved_nil, fun _ hu => (nomatch hu), List.Pairwise.nil, fun _ hd => (nomatch hd),
      List.Pairwise.nil⟩
  exact ⟨stamps, packets, s, hrun, hhandled.ordered hinc.of_append hordered⟩

end Order

/-- The same frames with another counter value. -/
def ntpFrameAt (liVnMode vcount : UInt8) : NetPacket :=
  let frame := ntpFrame liVnMode
  { frame with
    packet := { frame.packet with
      payload := fun i => if i = 13 then vcount else frame.packet.payload i } }

/-- Two exchanges. -/
theorem stampRun_ordered_exchanges :
    ∃ (stamps : List (StampT Float)) (packets : List NetPacket) (s : StampInput Float),
      stampRun littleEndianHost inetNtop4 (fun _ c => c) .live
        [[ntpFrameAt 0x23 1, ntpFrameAt 0x24 2], [ntpFrameAt 0x23 3], [ntpFrameAt 0x24 4]] []
        StampInput.init = some (stamps, packets, s) ∧
      stamps.Pairwise InTurn := by
  refine stampRun_ordered inetNtop4 .live
    [[ntpFrameAt 0x23 1, ntpFrameAt 0x24 2], [ntpFrameAt 0x23 3], [ntpFrameAt 0x24 4]] ?_ ?_
  · intro p hp
    simp only [List.flatten_cons, List.flatten_nil, List.cons_append, List.nil_append,
      List.mem_cons, List.not_mem_nil, or_false] at hp
    rcases hp with rfl | rfl | rfl | rfl <;> decide
  · show (0 : VCounter) < 1 ∧ (1 : VCounter) < 2 ∧ (2 : VCounter) < 3 ∧ (3 : VCounter) < 4 ∧ True
    decide

end RADclock.Capture
