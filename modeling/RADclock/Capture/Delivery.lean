import RADclock.Capture.NetworkStamp

/-!
# Delivery of stamps (`create_stamp.c`)

A call of `get_network_stamp` puts packets into the stamp queue until one of them makes a full
stamp, and takes that stamp out. Trace files give one packet to a call, a live input up to 20.

- `getNetworkStamp`, `stampRun`: the code, and calls of it one after the other.
- `Waits`, `Completes`, `Handled`: what becomes of the queue with a packet.
- `Delivery`: the packets of a call, of which at most the last one completes a stamp.
- `stampRun_delivers`: every call of any run is one.
-/

namespace RADclock.Capture

open Lib Ntp

/-! ## The code -/

/-- The stamp queue, and the counts. -/
structure StampInput (D : Type) where
  q : DList
  h : Heap (StampT D)
  stats : TimerefStats

def StampInput.init {D : Type} : StampInput D := ⟨DList.empty, Heap.empty, ⟨0, 0⟩⟩

section Code

variable {D : Type} [Arith D] (host : Host) (inetNtop : SockAddr → Text)
  (scrub : Nat → Cell (StampT D) → Cell (StampT D))

/-- A packet that `get_packet` has returned. -/
def takePacket (s : StampInput D) (p : NetPacket) : Option (Int × StampInput D) :=
  (updateStampQueue host inetNtop scrub s.q s.h p
    { s.stats with refCount := s.stats.refCount + 1 }).map
    fun r => (r.1, ⟨r.2.2.1, r.2.2.2, r.2.1⟩)

/-- The loop over the raw data queue, of which `packets` are left. -/
def attempts : Nat → Int → List NetPacket → StampInput D →
    Option (Int × List NetPacket × StampInput D)
  | 0, err, packets, s => some (err, packets, s)
  | _ + 1, _, [], s => some (1, [], s)
  | attempt + 1, _, p :: packets, s =>
    (takePacket host inetNtop scrub s p).bind fun r =>
      if r.1 = -1 ∨ r.1 = 0 then some (r.1, packets, r.2)
      else attempts attempt r.1 packets r.2

/-- The `switch` of `get_network_stamp`. -/
def readPackets (packets : List NetPacket) (s : StampInput D) :
    RunMode → Option (Int × List NetPacket × StampInput D)
  | .dead =>
    match packets with
    | [] => some (-1, [], s)
    | p :: packets => (takePacket host inetNtop scrub s p).map fun r => (r.1, packets, r.2)
  | .live => attempts host inetNtop scrub 20 0 packets s
  | .notset => some (-1, packets, s)

/-- `get_network_stamp`, with the return code, the stamp and the packets that are left. -/
def getNetworkStamp (runMode : RunMode) (packets : List NetPacket) (s : StampInput D) :
    Option (Int × Option (StampT D) × List NetPacket × StampInput D) :=
  (readPackets host inetNtop scrub packets s runMode).bind fun r =>
    let (err, packets, s) := r
    if err = -1 then some (-1, none, packets, s)
    else if err = 1 then some (1, none, packets, s)
    else
      (getFullstampFromQueueAndclean scrub s.q s.h).map fun r =>
        (if r.1.isSome then 0 else 1, r.1, packets, { s with q := r.2.1, h := r.2.2 })

/-- Calls one after the other, each with the packets that have arrived since the last one: the
stamps, the packets that are left, and the queue. -/
def stampRun (runMode : RunMode) : List (List NetPacket) → List NetPacket → StampInput D →
    Option (List (StampT D) × List NetPacket × StampInput D)
  | [], packets, s => some ([], packets, s)
  | arrived :: rest, packets, s =>
    (getNetworkStamp host inetNtop scrub runMode (packets ++ arrived) s).bind fun r =>
      (stampRun runMode rest r.2.2.1 r.2.2.2).map fun r' => (r.2.1.toList ++ r'.1, r'.2)

end Code

/-! ## One packet -/

section Packet

variable {D : Type} [Arith D] (host : Host) (inetNtop : SockAddr → Text)
  (scrub : Nat → Cell (StampT D) → Cell (StampT D))

/-- A packet that completes nothing. -/
inductive Waits (p : NetPacket) : List (StampT D) → List (StampT D) → Prop where
  | ignored {q : List (StampT D)} (hp : pushOf (D := D) host inetNtop p = none) : Waits p q q
  | duplicate {q : List (StampT D)} {mode : Int} {new stamp : StampT D}
      (hp : pushOf host inetNtop p = some (mode, new)) (hmem : stamp ∈ q)
      (hid : stamp.id = new.id) (hhalf : HasHalf mode stamp) : Waits p q q
  | pushed {q : List (StampT D)} {mode : Int} {new : StampT D}
      (hp : pushOf host inetNtop p = some (mode, new)) (hq : ∀ u ∈ q, u.id ≠ new.id) :
      Waits p q (fillHalf mode new (blankStamp new.id) :: trimmed q)

/-- A packet that makes the stamp `full` of the element `stamp`. -/
inductive Completes (p : NetPacket) : StampT D → StampT D → Prop where
  | filled {mode : Int} {new stamp : StampT D} (hp : pushOf host inetNtop p = some (mode, new))
      (hid : stamp.id = new.id) (hhalf : ¬ HasHalf mode stamp) :
      Completes p stamp (fillHalf mode new stamp)

/-- What becomes of the queue with a packet; a stamp that it completes is taken out. -/
inductive Handled (p : NetPacket) : List (StampT D) → Option (StampT D) → List (StampT D) →
    Prop where
  | waits {q q' : List (StampT D)} (hw : Waits host inetNtop p q q') : Handled p q none q'
  | delivers {us ws : List (StampT D)} {stamp full left : StampT D}
      (hc : Completes host inetNtop p stamp full) (hleft : LeftOf scrub full left) :
      Handled p (us ++ stamp :: ws) (some full) (kept full left us ++ kept full full ws)

/-- The elements of the queue are halves, with distinct ids. -/
structure Halved (q : List (StampT D)) : Prop where
  half : ∀ stamp ∈ q, ClientHalf stamp ∨ ServerHalf stamp
  queued : Queued q

variable {host inetNtop scrub} {p : NetPacket} {q q' us ws : List (StampT D)}
  {stamp full : StampT D}

omit [Arith D] in
theorem halved_nil : Halved ([] : List (StampT D)) := ⟨fun _ hs => (nomatch hs), queued_nil⟩

omit [Arith D] in
theorem Halved.not_full (hq : Halved q) : ∀ stamp ∈ q, ¬ StampFull stamp := by
  intro stamp hs hfull
  rcases hq.half stamp hs with hc | hs
  · exact hfull.2 hc.2
  · exact hfull.1 hs.1

omit [Arith D] in
theorem Halved.sublist (hq : Halved q) (hsub : q'.Sublist q) : Halved q' :=
  ⟨fun stamp hs => hq.half stamp (hsub.subset hs), hq.queued.sublist hsub⟩

omit [Arith D] in
theorem Halved.filter_full (hq : Halved (us ++ stamp :: ws)) (hfull : StampFull full) :
    (us ++ full :: ws).filter (fun stamp => StampFull stamp) = [full] := by
  have hus : us.filter (fun stamp => StampFull stamp) = [] :=
    List.filter_eq_nil_iff.mpr fun u hu => by simpa using hq.not_full u (by simp [hu])
  have hws : ws.filter (fun stamp => StampFull stamp) = [] :=
    List.filter_eq_nil_iff.mpr fun w hw => by simpa using hq.not_full w (by simp [hw])
  rw [List.filter_append, List.filter_cons_of_pos (by simpa using hfull), hus, hws]
  rfl

/-- A blank element becomes the half that is pushed. -/
theorem Valued.half_pushed {mode : Int} {new : StampT D} (hv : Valued mode new) (id : UInt64) :
    ClientHalf (fillHalf mode new (blankStamp id)) ∨
      ServerHalf (fillHalf mode new (blankStamp id)) := by
  rcases hv with ⟨rfl, hv⟩ | ⟨rfl, hv⟩
  · exact Or.inl ⟨hv, rfl⟩
  · exact Or.inr ⟨rfl, hv⟩

/-- A push makes the packet wait, or completes a stamp with the return code `0`. -/
theorem Inserted.waits_or_completes {mode r : Int} {new : StampT D}
    (hi : Inserted mode new q r q') (hp : pushOf host inetNtop p = some (mode, new))
    (hv : getVcount host p.packet ≠ some 0) :
    Waits host inetNtop p q q' ∨ r = 0 ∧ ∃ us stamp full ws, q = us ++ stamp :: ws ∧
      q' = us ++ full :: ws ∧ Completes host inetNtop p stamp full := by
  cases hi with
  | unsupported hbad =>
    rcases pushOf_valued hv hp with ⟨hm, -⟩ | ⟨hm, -⟩
    · exact absurd hm hbad.1
    · exact absurd hm hbad.2
  | duplicate _ _ hid hhalf => exact Or.inl (.duplicate hp (by simp) hid hhalf)
  | filled _ _ hid hhalf => exact Or.inr ⟨rfl, _, _, _, _, rfl, rfl, .filled hp hid hhalf⟩
  | pushed _ hq => exact Or.inl (.pushed hp hq)

theorem Waits.halved (hw : Waits host inetNtop p q q') (hv : getVcount host p.packet ≠ some 0)
    (hq : Halved q) : Halved q' := by
  cases hw with
  | ignored => exact hq
  | duplicate => exact hq
  | pushed hp hnew =>
    have hvalued := pushOf_valued hv hp
    have hmode : _ = modeClient ∨ _ = modeServer := hvalued.imp And.left And.left
    refine ⟨List.forall_mem_cons.mpr ⟨hvalued.half_pushed _, fun stamp hs =>
      hq.half stamp ((trimmed_sublist q).subset hs)⟩, ?_⟩
    exact (Inserted.pushed hmode hnew).queued hq.queued

theorem Waits.not_completed (hw : Waits host inetNtop p q q')
    (hv : getVcount host p.packet ≠ some 0) (hq : Halved q) : ¬ Completed q q' := by
  have hzero : q'.countP (fun stamp => StampFull stamp) = 0 :=
    List.countP_eq_zero.mpr fun stamp hs => by simpa using (hw.halved hv hq).not_full stamp hs
  unfold Completed
  omega

theorem Completes.stampFull (hc : Completes host inetNtop p stamp full)
    (hv : getVcount host p.packet ≠ some 0) (hhalf : ClientHalf stamp ∨ ServerHalf stamp) :
    StampFull full := by
  cases hc with
  | filled hp hid hnot =>
    rw [(pushOf_valued hv hp).full_fillHalf hnot]
    rintro ⟨hTa, hTf⟩
    rcases hhalf with hc | hs
    · exact hc.1 hTa
    · exact hs.2 hTf

/-- The stamp that a packet completes is the only full one. -/
theorem Completes.oldest (hc : Completes host inetNtop p stamp full)
    (hv : getVcount host p.packet ≠ some 0) (hq : Halved (us ++ stamp :: ws)) :
    Oldest us full ws where
  full := hc.stampFull hv (hq.half stamp (by simp))
  le_of_head u hu hfull := absurd hfull (hq.not_full u (by simp [hu]))
  lt_of_tail w hw hfull := absurd hfull (hq.not_full w (by simp [hw]))

omit [Arith D] in
theorem kept_sublist (left : StampT D) :
    (kept full left us ++ kept full full ws).Sublist (us ++ stamp :: ws) :=
  List.filter_sublist.append (List.filter_sublist.trans (List.sublist_cons_self _ _))

theorem Handled.halved {o : Option (StampT D)} (hh : Handled host inetNtop scrub p q o q')
    (hv : getVcount host p.packet ≠ some 0) (hq : Halved q) : Halved q' := by
  cases hh with
  | waits hw => exact hw.halved hv hq
  | delivers => exact hq.sublist (kept_sublist _)

end Packet

section Contents

variable {D : Type} {s : StampInput D} {xs : List (Nat × StampT D)}

/-- The elements of the queue, from head to tail. -/
def StampInput.contents (s : StampInput D) : List (StampT D) :=
  (DList.foldPrev (fun stamps _ stamp => stamp :: stamps) s.h s.h.fresh s.q.stop []).getD []

theorem contents_eq (hl : IsList s.q s.h xs) : s.contents = xs.map Prod.snd := by
  rw [StampInput.contents, hl.stop, DList.foldPrev_spec _ hl.linked hl.length_le,
    Option.getD_some, List.map_eq_foldr]

end Contents

section Take

variable {D : Type} [Arith D] {host : Host} (inetNtop : SockAddr → Text)
  (scrub : Nat → Cell (StampT D) → Cell (StampT D)) {s : StampInput D} {p : NetPacket}

/-- The queue is a list of halves with distinct ids. -/
structure Waiting (s : StampInput D) : Prop where
  isList : ∃ xs, IsList s.q s.h xs
  halved : Halved s.contents

omit [Arith D] in
theorem waiting_init : Waiting (StampInput.init : StampInput D) := by
  have hl : IsList (StampInput.init : StampInput D).q (StampInput.init : StampInput D).h [] :=
    isList_empty
  refine ⟨⟨[], hl⟩, ?_⟩
  rw [contents_eq hl]
  exact halved_nil

/-- A packet waits, or it completes a stamp and the return code tells so. -/
theorem takePacket_spec (hs : Waiting s) (hv : getVcount host p.packet ≠ some 0) :
    ∃ err s', takePacket host inetNtop scrub s p = some (err, s') ∧
      (Waits host inetNtop p s.contents s'.contents ∧ Waiting s' ∨
        err = 0 ∧ ∃ us stamp full ws xs, s.contents = us ++ stamp :: ws ∧
          Completes host inetNtop p stamp full ∧ IsList s'.q s'.h xs ∧
          xs.map Prod.snd = us ++ full :: ws) := by
  obtain ⟨⟨xs, hl⟩, hhalved⟩ := hs
  have hcontents := contents_eq hl
  unfold takePacket
  cases hpush : pushOf (D := D) host inetNtop p with
  | none =>
    obtain ⟨r, stats', hcode, -⟩ := updateStampQueue_of_none scrub hpush s.q s.h
      { s.stats with refCount := s.stats.refCount + 1 }
    have hcontents' : (⟨s.q, s.h, stats'⟩ : StampInput D).contents = s.contents := rfl
    refine ⟨r, ⟨s.q, s.h, stats'⟩, by rw [hcode]; rfl, Or.inl ⟨?_, ⟨xs, hl⟩, hhalved⟩⟩
    rw [hcontents']
    exact .ignored hpush
  | some push =>
    obtain ⟨mode, new⟩ := push
    obtain ⟨r, q', h', xs', hcode, hl', hi⟩ := insertandmatchHalfstamp_spec scrub hl new mode
    obtain ⟨stats', hupdate⟩ := updateStampQueue_of_push scrub hpush s.q s.h
      { s.stats with refCount := s.stats.refCount + 1 }
    rw [hcode, Option.map_some] at hupdate
    have hcontents' := contents_eq (s := ⟨q', h', stats'⟩) hl'
    rw [← hcontents] at hi
    refine ⟨r, ⟨q', h', stats'⟩, by rw [hupdate]; rfl, ?_⟩
    rcases hi.waits_or_completes hpush hv with hw | ⟨rfl, us, stamp, full, ws, hq, hq', hc⟩
    · rw [← hcontents'] at hw
      exact Or.inl ⟨hw, ⟨xs', hl'⟩, hw.halved hv hhalved⟩
    · exact Or.inr ⟨rfl, us, stamp, full, ws, xs', hq, hc, hl', hq'⟩

end Take

/-! ## One call -/

section Call

variable {D : Type} [Arith D] (host : Host) (inetNtop : SockAddr → Text)
  (scrub : Nat → Cell (StampT D) → Cell (StampT D))

/-- Packets that are put into the queue one after the other, and complete nothing. -/
inductive Attempted : StampInput D → List NetPacket → StampInput D → Prop where
  | nil (s : StampInput D) : Attempted s [] s
  | cons {s s' s'' : StampInput D} {p : NetPacket} {ps : List NetPacket} {err : Int}
      (hp : takePacket host inetNtop scrub s p = some (err, s'))
      (hnot : ¬ Completed s.contents s'.contents) (hps : Attempted s' ps s'') :
      Attempted s (p :: ps) s''

/-- The packets of a call, and the stamp that it returns. Only the last packet may complete a stamp,
and that is the one. -/
inductive Delivery (s : StampInput D) : List NetPacket → Option (StampT D) → StampInput D →
    Prop where
  | nothing {s' : StampInput D} {ps : List NetPacket}
      (hps : Attempted host inetNtop scrub s ps s') : Delivery s ps none s'
  | stamp {mid after : StampInput D} {ps : List NetPacket} {p : NetPacket} {full : StampT D}
      {q : DList} {h : Heap (StampT D)} (hps : Attempted host inetNtop scrub s ps mid)
      (hp : takePacket host inetNtop scrub mid p = some (0, after))
      (hcompl : Completed mid.contents after.contents)
      (hfull : after.contents.filter (fun stamp => StampFull stamp) = [full])
      (hget : getFullstampFromQueueAndclean scrub after.q after.h = some (some full, q, h)) :
      Delivery s (ps ++ [p]) (some full) { after with q, h }

/-- What becomes of the queue with packets one after the other, and the stamps taken out. -/
inductive HandledRun : List (StampT D) → List NetPacket → List (StampT D) → List (StampT D) →
    Prop where
  | nil (q : List (StampT D)) : HandledRun q [] [] q
  | cons {q q' q'' : List (StampT D)} {p : NetPacket} {ps : List NetPacket}
      {o : Option (StampT D)} {stamps : List (StampT D)}
      (hp : Handled host inetNtop scrub p q o q') (hps : HandledRun q' ps stamps q'') :
      HandledRun q (p :: ps) (o.toList ++ stamps) q''

/-- What a call, or a part of it, has done up to `s'`: no stamp is completed, or one is by the
packet before. -/
inductive Underway (s : StampInput D) : List NetPacket → Int → StampInput D → Prop where
  | waiting {s' : StampInput D} {ps : List NetPacket} {err : Int}
      (hps : Attempted host inetNtop scrub s ps s')
      (hrun : HandledRun host inetNtop scrub s.contents ps [] s'.contents) (hs : Waiting s') :
      Underway s ps err s'
  | completed {mid after : StampInput D} {ps : List NetPacket} {p : NetPacket}
      {us ws : List (StampT D)} {stamp full : StampT D} {xs : List (Nat × StampT D)}
      (hps : Attempted host inetNtop scrub s ps mid)
      (hrun : HandledRun host inetNtop scrub s.contents ps [] mid.contents) (hs : Waiting mid)
      (hp : takePacket host inetNtop scrub mid p = some (0, after))
      (hv : getVcount host p.packet ≠ some 0) (hc : Completes host inetNtop p stamp full)
      (hmid : mid.contents = us ++ stamp :: ws) (hl : IsList after.q after.h xs)
      (hxs : xs.map Prod.snd = us ++ full :: ws) : Underway s (ps ++ [p]) 0 after

variable {host inetNtop scrub} {s s' s'' : StampInput D} {p : NetPacket} {ps ps' packets :
    List NetPacket}

theorem HandledRun.append {q q' q'' : List (StampT D)} {stamps stamps' : List (StampT D)}
    (h : HandledRun host inetNtop scrub q ps stamps q')
    (h' : HandledRun host inetNtop scrub q' ps' stamps' q'') :
    HandledRun host inetNtop scrub q (ps ++ ps') (stamps ++ stamps') q'' := by
  induction h with
  | nil q => exact h'
  | cons hp _ ih =>
    rw [List.append_assoc]
    exact .cons hp (ih h')

/-- One more packet in front. -/
theorem Underway.cons {err err' : Int} (hp : takePacket host inetNtop scrub s p = some (err, s'))
    (hw : Waits host inetNtop p s.contents s'.contents) (hs : Waiting s)
    (hv : getVcount host p.packet ≠ some 0)
    (h : Underway host inetNtop scrub s' ps err' s'') :
    Underway host inetNtop scrub s (p :: ps) err' s'' := by
  have hnot := hw.not_completed hv hs.halved
  cases h with
  | waiting hps hrun hs' => exact .waiting (.cons hp hnot hps) (.cons (.waits hw) hrun) hs'
  | completed hps hrun hs' hp' hv' hc hmid hl hxs =>
    exact .completed (.cons hp hnot hps) (.cons (.waits hw) hrun) hs' hp' hv' hc hmid hl hxs

variable (inetNtop scrub) in
theorem attempts_spec (attempt : Nat) (err : Int) (hs : Waiting s)
    (hv : ∀ p ∈ packets, getVcount host p.packet ≠ some 0) :
    ∃ err' packets' s' ps,
      attempts host inetNtop scrub attempt err packets s = some (err', packets', s') ∧
      packets = ps ++ packets' ∧ Underway host inetNtop scrub s ps err' s' := by
  induction attempt generalizing err packets s with
  | zero => exact ⟨err, packets, s, [], rfl, rfl, .waiting (.nil s) (.nil _) hs⟩
  | succ attempt ih =>
    cases packets with
    | nil => exact ⟨1, [], s, [], rfl, rfl, .waiting (.nil s) (.nil _) hs⟩
    | cons p packets =>
      obtain ⟨hvp, hv⟩ := List.forall_mem_cons.mp hv
      obtain ⟨err₁, s₁, htake, hcase⟩ := takePacket_spec inetNtop scrub hs hvp
      rw [attempts, htake, Option.bind_some]
      rcases hcase with ⟨hw, hs₁⟩ | ⟨rfl, us, stamp, full, ws, xs, hmid, hc, hl, hxs⟩
      · dsimp only
        split_ifs with hstop
        · exact ⟨err₁, packets, s₁, [p], rfl, rfl,
            .cons htake hw hs hvp (.waiting (.nil s₁) (.nil _) hs₁)⟩
        · obtain ⟨err', packets', s', ps, hrest, rfl, hunder⟩ := ih err₁ hs₁ hv
          exact ⟨err', packets', s', p :: ps, hrest, rfl, .cons htake hw hs hvp hunder⟩
      · exact ⟨0, packets, s₁, [p], if_pos (Or.inr rfl), rfl,
          Underway.completed (.nil s) (.nil _) hs htake hvp hc hmid hl hxs⟩

variable (inetNtop scrub) in
theorem readPackets_spec (runMode : RunMode) (hs : Waiting s)
    (hv : ∀ p ∈ packets, getVcount host p.packet ≠ some 0) :
    ∃ err packets' s' ps,
      readPackets host inetNtop scrub packets s runMode = some (err, packets', s') ∧
      packets = ps ++ packets' ∧ Underway host inetNtop scrub s ps err s' := by
  cases runMode with
  | notset => exact ⟨-1, packets, s, [], rfl, rfl, .waiting (.nil s) (.nil _) hs⟩
  | live => exact attempts_spec inetNtop scrub 20 0 hs hv
  | dead =>
    cases packets with
    | nil => exact ⟨-1, [], s, [], rfl, rfl, .waiting (.nil s) (.nil _) hs⟩
    | cons p packets =>
      have hvp := hv p List.mem_cons_self
      obtain ⟨err, s', htake, hcase⟩ := takePacket_spec inetNtop scrub hs hvp
      refine ⟨err, packets, s', [p], by rw [readPackets, htake]; rfl, rfl, ?_⟩
      rcases hcase with ⟨hw, hs'⟩ | ⟨rfl, us, stamp, full, ws, xs, hmid, hc, hl, hxs⟩
      · exact .cons htake hw hs hvp (.waiting (.nil s') (.nil _) hs')
      · exact Underway.completed (.nil s) (.nil _) hs htake hvp hc hmid hl hxs

variable (inetNtop scrub) in
/-- A call returns the stamp that its last packet has completed, or none has completed one. -/
theorem getNetworkStamp_spec (runMode : RunMode) (hs : Waiting s)
    (hv : ∀ p ∈ packets, getVcount host p.packet ≠ some 0) :
    ∃ ret o packets' s' ps,
      getNetworkStamp host inetNtop scrub runMode packets s = some (ret, o, packets', s') ∧
      packets = ps ++ packets' ∧ Delivery host inetNtop scrub s ps o s' ∧
      HandledRun host inetNtop scrub s.contents ps o.toList s'.contents ∧ Waiting s' := by
  obtain ⟨err, packets', s', ps, hread, rfl, hunder⟩ :=
    readPackets_spec inetNtop scrub runMode hs hv
  unfold getNetworkStamp
  rw [hread, Option.bind_some]
  cases hunder with
  | waiting hps hrun hs' =>
    obtain ⟨⟨xs, hl⟩, hhalved⟩ := hs'
    -- no packet completed a stamp, so the search for a full one fails
    have hnone : ∀ x ∈ xs, ¬ StampFull x.2 := by
      intro x hx
      refine hhalved.not_full x.2 ?_
      rw [contents_eq hl]
      exact List.mem_map_of_mem hx
    dsimp only
    split_ifs
    · exact ⟨_, none, packets', s', ps, rfl, rfl, .nothing hps, hrun, ⟨xs, hl⟩, hhalved⟩
    · exact ⟨_, none, packets', s', ps, rfl, rfl, .nothing hps, hrun, ⟨xs, hl⟩, hhalved⟩
    · refine ⟨1, none, packets', s', ps, ?_, rfl, .nothing hps, hrun, ⟨xs, hl⟩, hhalved⟩
      rw [getFullstampFromQueueAndclean_none scrub hl hnone]
      rfl
  | @completed mid _ ps p us ws stamp full xs hps hrun hmids hp hvp hc hmid hl hxs =>
    have hhalved := hmids.halved
    rw [hmid] at hhalved
    -- the last packet did, and it is the only full one, hence the oldest
    have holdest := hc.oldest hvp hhalved
    obtain ⟨us, _, rfl, rfl, hrest⟩ := List.map_eq_append_iff.mp hxs
    obtain ⟨x, ws, rfl, rfl, rfl⟩ := List.map_eq_cons_iff.mp hrest
    obtain ⟨q', h', c, hcval, hget, hl'⟩ := getFullstampFromQueueAndclean_some scrub hl holdest
    -- the clean-out leaves halves only
    have hafter := contents_eq hl
    rw [hxs] at hafter
    have hnot : ¬ StampFull stamp := hhalved.not_full stamp (by simp)
    have hcompl : Completed mid.contents s'.contents := by
      rw [hmid, hafter]
      exact (completed_at hnot).mpr holdest.full
    have honly : s'.contents.filter (fun stamp => StampFull stamp) = [x.2] := by
      rw [hafter]
      exact hhalved.filter_full holdest.full
    have hdelivery : Delivery host inetNtop scrub s (ps ++ [p]) (some x.2)
        { s' with q := q', h := h' } := .stamp hps hp hcompl honly hget
    have hcontents : ({ s' with q := q', h := h' } : StampInput D).contents =
        kept x.2 (scrub x.1 c).val (us.map Prod.snd) ++ kept x.2 x.2 (ws.map Prod.snd) := by
      rw [contents_eq hl', List.map_append, map_snd_filter_dangerous, map_snd_filter_dangerous]
    have hhandled : Handled host inetNtop scrub p mid.contents (some x.2)
        ({ s' with q := q', h := h' } : StampInput D).contents := by
      rw [hmid, hcontents]
      exact .delivers hc ⟨x.1, c, hcval, rfl⟩
    refine ⟨0, some x.2, packets', { s' with q := q', h := h' }, ps ++ [p], ?_, rfl, hdelivery,
      hrun.append (.cons hhandled (.nil _)), ⟨_, hl'⟩, hhandled.halved hvp hmids.halved⟩
    simp [hget]

end Call

/-! ## Runs -/

section Run

variable {D : Type} [Arith D] {host : Host} (inetNtop : SockAddr → Text)
  (scrub : Nat → Cell (StampT D) → Cell (StampT D)) (runMode : RunMode)

/-- The packets of a run are handled in order, but for those that are left. -/
theorem stampRun_spec (arrivals : List (List NetPacket)) {packets : List NetPacket}
    {s : StampInput D} (hs : Waiting s)
    (hv : ∀ p ∈ packets ++ arrivals.flatten, getVcount host p.packet ≠ some 0) :
    ∃ stamps packets' s' ps,
      stampRun host inetNtop scrub runMode arrivals packets s = some (stamps, packets', s') ∧
      packets ++ arrivals.flatten = ps ++ packets' ∧
      HandledRun host inetNtop scrub s.contents ps stamps s'.contents ∧ Waiting s' := by
  induction arrivals generalizing packets s with
  | nil =>
    exact ⟨[], packets, s, [], rfl, by rw [List.flatten_nil, List.append_nil]; rfl, .nil _, hs⟩
  | cons arrived arrivals ih =>
    rw [List.flatten_cons, ← List.append_assoc] at hv ⊢
    obtain ⟨ret, o, packets₁, s₁, ps₁, hcall, hsplit₁, -, hrun₁, hs₁⟩ :=
      getNetworkStamp_spec inetNtop scrub runMode hs fun p hp => hv p (List.mem_append_left _ hp)
    rw [hsplit₁, List.append_assoc] at hv ⊢
    obtain ⟨stamps, packets', s', ps, hrest, hsplit, hrun, hs'⟩ :=
      ih hs₁ fun p hp => hv p (List.mem_append_right _ hp)
    refine ⟨o.toList ++ stamps, packets', s', ps₁ ++ ps, ?_, ?_, hrun₁.append hrun, hs'⟩
    · rw [stampRun, hcall, Option.bind_some]
      dsimp only
      rw [hrest]
      rfl
    · rw [hsplit, List.append_assoc]

theorem stampRun_init (arrivals : List (List NetPacket))
    (hv : ∀ p ∈ arrivals.flatten, getVcount host p.packet ≠ some 0) :
    ∃ stamps packets s ps,
      stampRun host inetNtop scrub runMode arrivals [] StampInput.init =
        some (stamps, packets, s) ∧
      arrivals.flatten = ps ++ packets ∧
      HandledRun host inetNtop scrub ([] : List (StampT D)) ps stamps s.contents ∧ Waiting s := by
  have hempty : (StampInput.init : StampInput D).contents = [] := rfl
  obtain ⟨stamps, packets, s, ps, hrun, hsplit, hhandled, hs⟩ :=
    stampRun_spec inetNtop scrub runMode arrivals (waiting_init (D := D))
      (show ∀ p ∈ [] ++ arrivals.flatten, _ from hv)
  rw [hempty] at hhandled
  exact ⟨stamps, packets, s, ps, hrun, hsplit, hhandled, hs⟩

/-- Between calls there is no full stamp in the queue. Of the packets of a call at most the last one
completes a stamp, and the call returns it. -/
theorem stampRun_delivers (arrivals : List (List NetPacket)) (arrived : List NetPacket)
    (hv : ∀ p ∈ arrivals.flatten ++ arrived, getVcount host p.packet ≠ some 0) :
    ∃ stamps packets s,
      stampRun host inetNtop scrub runMode arrivals [] StampInput.init =
        some (stamps, packets, s) ∧
      (∀ stamp ∈ s.contents, ¬ StampFull stamp) ∧
      ∃ ret o packets' s' ps,
        getNetworkStamp host inetNtop scrub runMode (packets ++ arrived) s =
          some (ret, o, packets', s') ∧
        packets ++ arrived = ps ++ packets' ∧ Delivery host inetNtop scrub s ps o s' := by
  obtain ⟨stamps, packets, s, ps, hrun, hsplit, -, hs⟩ :=
    stampRun_init inetNtop scrub runMode arrivals fun p hp => hv p (List.mem_append_left _ hp)
  have hv' : ∀ p ∈ packets ++ arrived, getVcount host p.packet ≠ some 0 := by
    intro p hp
    refine hv p ((List.mem_append.mp hp).elim (fun hp => List.mem_append_left _ ?_)
      (List.mem_append_right _))
    rw [hsplit]
    exact List.mem_append_right _ hp
  obtain ⟨ret, o, packets', s', ps', hcall, hsplit', hdelivery, -⟩ :=
    getNetworkStamp_spec inetNtop scrub runMode hs hv'
  exact ⟨stamps, packets, s, hrun, hs.halved.not_full, ret, o, packets', s', ps', hcall, hsplit',
    hdelivery⟩

end Run

/-- A request, and its reply by the next call. -/
theorem stampRun_delivers_reply :
    ∃ stamps packets s,
      stampRun littleEndianHost inetNtop4 (fun _ c => c) .live [[ntpFrame 0x23]] []
        (StampInput.init : StampInput Float) = some (stamps, packets, s) ∧
      (∀ stamp ∈ s.contents, ¬ StampFull stamp) ∧
      ∃ ret o packets' s' ps,
        getNetworkStamp littleEndianHost inetNtop4 (fun _ c => c) .live
          (packets ++ [ntpFrame 0x24]) s = some (ret, o, packets', s') ∧
        packets ++ [ntpFrame 0x24] = ps ++ packets' ∧
        Delivery littleEndianHost inetNtop4 (fun _ c => c) s ps o s' := by
  refine stampRun_delivers inetNtop4 (fun _ c => c) .live [[ntpFrame 0x23]] [ntpFrame 0x24] ?_
  have hrequest : getVcount littleEndianHost (ntpFrame 0x23).packet ≠ some 0 := by decide
  have hreply : getVcount littleEndianHost (ntpFrame 0x24).packet ≠ some 0 := by decide
  simpa using ⟨hrequest, hreply⟩

end RADclock.Capture
