import RADclock.Capture.Delivery

/-!
# The stamp queue as a machine on halves (`create_stamp.c`)

What the calls of `get_network_stamp` deliver depends on the halves that the packets carry, and not
on how many packets a call is given, nor on where the queue lies in memory. The clean-out reads a
stamp that it has freed, so this is so as long as freed memory keeps what is read of it.

- `matchHalf`, `matchHalves`: the machine.
- `Keeps`: what freed memory is to keep.
- `stampRun_halves`: the stamps of any run are those of the machine.
-/

namespace RADclock.Capture

open Lib

/-! ## The machine -/

section Machine

variable {D : Type} [Zero D]

/-- A half comes in, and meets the others that wait, the newest of them first. The stamp that it
completes is taken out, with the halves that are too old by then. -/
def matchHalf (q : List (StampT D)) (mode : Int) (new : StampT D) :
    Option (StampT D) × List (StampT D) :=
  match q.find? fun stamp => stamp.id = new.id with
  | none => (none, fillHalf mode new (blankStamp new.id) :: trimmed q)
  | some stamp =>
    if HasHalf mode stamp then (none, q)
    else
      let full := fillHalf mode new stamp
      (some full, kept full full (q.filter fun stamp => stamp.id ≠ new.id))

/-- The halves one after the other: the stamps, and the halves that wait. -/
def matchHalves : List (Int × StampT D) → List (StampT D) → List (StampT D) × List (StampT D)
  | [], q => ([], q)
  | half :: halves, q =>
    let r := matchHalf q half.1 half.2
    let r' := matchHalves halves r.2
    (r.1.toList ++ r'.1, r'.2)

theorem matchHalves_append (halves halves' : List (Int × StampT D)) (q : List (StampT D)) :
    matchHalves (halves ++ halves') q =
      let r := matchHalves halves q
      let r' := matchHalves halves' r.2
      (r.1 ++ r'.1, r'.2) := by
  induction halves generalizing q with
  | nil => rfl
  | cons half halves ih => simp only [List.cons_append, matchHalves, ih, List.append_assoc]

variable {q us ws : List (StampT D)} {mode : Int} {new stamp : StampT D}

theorem matchHalf_pushed (hq : ∀ u ∈ q, u.id ≠ new.id) :
    matchHalf q mode new = (none, fillHalf mode new (blankStamp new.id) :: trimmed q) := by
  have hfind : q.find? (fun stamp => stamp.id = new.id) = none := by simpa using hq
  rw [matchHalf, hfind]

omit [Zero D] in
/-- An id stands once in the queue. -/
theorem Queued.ne_of_split (hq : Queued (us ++ stamp :: ws)) (hid : stamp.id = new.id) :
    (∀ u ∈ us, u.id ≠ new.id) ∧ ∀ w ∈ ws, w.id ≠ new.id := by
  have hnodup := hq.nodup
  rw [List.map_append, List.map_cons, List.nodup_middle, List.nodup_cons] at hnodup
  have hnot := hnodup.1
  rw [hid, List.mem_append, not_or] at hnot
  exact ⟨fun u hu heq => hnot.1 (heq ▸ List.mem_map_of_mem hu),
    fun w hw heq => hnot.2 (heq ▸ List.mem_map_of_mem hw)⟩

theorem matchHalf_duplicate (hq : Queued q) (hmem : stamp ∈ q) (hid : stamp.id = new.id)
    (hhalf : HasHalf mode stamp) : matchHalf q mode new = (none, q) := by
  obtain ⟨us, ws, rfl⟩ := List.append_of_mem hmem
  rw [matchHalf, find_split (hq.ne_of_split hid).1 hid]
  exact if_pos hhalf

theorem matchHalf_filled (hq : Queued (us ++ stamp :: ws)) (hid : stamp.id = new.id)
    (hhalf : ¬ HasHalf mode stamp) :
    matchHalf (us ++ stamp :: ws) mode new =
      (some (fillHalf mode new stamp), kept (fillHalf mode new stamp) (fillHalf mode new stamp)
        (us ++ ws)) := by
  obtain ⟨hus, hws⟩ := hq.ne_of_split hid
  have hrest : (us ++ stamp :: ws).filter (fun stamp => stamp.id ≠ new.id) = us ++ ws := by
    rw [List.filter_append, List.filter_cons_of_neg (by simpa using hid),
      List.filter_eq_self.mpr (by simpa using hus), List.filter_eq_self.mpr (by simpa using hws)]
  rw [matchHalf, find_split hus hid]
  dsimp only
  rw [if_neg hhalf, hrest]

end Machine

/-! ## The code -/

section Code

variable {D : Type}

/-- Freed memory keeps what the clean-out reads of a stamp. -/
def Keeps (scrub : Nat → Cell (StampT D) → Cell (StampT D)) : Prop :=
  ∀ a c, (scrub a c).val.bst.Tf = c.val.bst.Tf ∧
    (scrub a c).val.serverIpaddr = c.val.serverIpaddr

variable [Arith D] {host : Host} {inetNtop : SockAddr → Text}
  {scrub : Nat → Cell (StampT D) → Cell (StampT D)} {p : NetPacket} {ps : List NetPacket}
  {q q' us : List (StampT D)} {full left : StampT D}

omit [Arith D] in
theorem Keeps.kept_eq (hkeeps : Keeps scrub) (hleft : LeftOf scrub full left) :
    kept full left us = kept full full us := by
  obtain ⟨a, c, rfl, rfl⟩ := hleft
  obtain ⟨hTf, haddr⟩ := hkeeps a c
  refine List.filter_congr fun stamp _ => ?_
  have hsame : Dangerous c.val.bst.Ta (scrub a c).val stamp ↔
      Dangerous c.val.bst.Ta c.val stamp := by
    rw [Dangerous, hTf, haddr, Dangerous]
  simp [hsame]

variable (host inetNtop) in
/-- The halves in some packets. -/
def halvesOf (ps : List NetPacket) : List (Int × StampT D) := ps.filterMap (pushOf host inetNtop)

theorem halvesOf_append (ps ps' : List NetPacket) :
    (halvesOf host inetNtop (ps ++ ps') : List (Int × StampT D)) =
      halvesOf host inetNtop ps ++ halvesOf host inetNtop ps' :=
  List.filterMap_append

theorem Waits.matchHalf_eq {mode : Int} {new : StampT D} (hw : Waits host inetNtop p q q')
    (hq : Queued q) (hp : pushOf host inetNtop p = some (mode, new)) :
    matchHalf q mode new = (none, q') := by
  cases hw with
  | ignored hnone => cases hnone.symm.trans hp
  | duplicate hp' hmem hid hhalf =>
    cases hp'.symm.trans hp
    exact matchHalf_duplicate hq hmem hid hhalf
  | pushed hp' hnew =>
    cases hp'.symm.trans hp
    exact matchHalf_pushed hnew

/-- A packet does what its half does. -/
theorem Handled.matchHalves_eq {o : Option (StampT D)} (hh : Handled host inetNtop scrub p q o q')
    (hkeeps : Keeps scrub) (hq : Queued q) :
    matchHalves (halvesOf host inetNtop [p]) q = (o.toList, q') := by
  cases hh with
  | waits hw =>
    cases hp : pushOf (D := D) host inetNtop p with
    | none =>
      rw [halvesOf, List.filterMap_cons_none hp]
      cases hw with
      | ignored => rfl
      | duplicate hp' => cases hp.symm.trans hp'
      | pushed hp' => cases hp.symm.trans hp'
    | some half =>
      rw [halvesOf, List.filterMap_cons_some hp, matchHalves, hw.matchHalf_eq hq hp]
      rfl
  | delivers hc hleft =>
    cases hc with
    | filled hp hid hhalf =>
      rw [halvesOf, List.filterMap_cons_some hp, matchHalves, matchHalf_filled hq hid hhalf,
        hkeeps.kept_eq hleft]
      simp only [kept, List.filter_append]
      rfl

theorem HandledRun.matchHalves_eq {stamps : List (StampT D)}
    (hrun : HandledRun host inetNtop scrub q ps stamps q') (hkeeps : Keeps scrub)
    (hv : ∀ p ∈ ps, getVcount host p.packet ≠ some 0) (hq : Halved q) :
    matchHalves (halvesOf host inetNtop ps) q = (stamps, q') := by
  induction hrun with
  | nil q => rfl
  | @cons q q' q'' p ps o stamps hp hps ih =>
    obtain ⟨hvp, hv⟩ := List.forall_mem_cons.mp hv
    rw [← List.singleton_append, halvesOf_append, matchHalves_append,
      hp.matchHalves_eq hkeeps hq.queued]
    dsimp only
    rw [ih hv (hp.halved hvp hq)]

variable (inetNtop) in
/-- The stamps of any run are those that the machine makes of the halves in the packets handled,
whatever the calls are given. -/
theorem stampRun_halves (hkeeps : Keeps scrub) (runMode : RunMode)
    (arrivals : List (List NetPacket))
    (hv : ∀ p ∈ arrivals.flatten, getVcount host p.packet ≠ some 0) :
    ∃ stamps packets s ps,
      stampRun host inetNtop scrub runMode arrivals [] StampInput.init =
        some (stamps, packets, s) ∧
      arrivals.flatten = ps ++ packets ∧
      matchHalves (halvesOf host inetNtop ps) [] = (stamps, s.contents) := by
  obtain ⟨stamps, packets, s, ps, hrun, hsplit, hhandled, -⟩ :=
    stampRun_init inetNtop scrub runMode arrivals hv
  refine ⟨stamps, packets, s, ps, hrun, hsplit, hhandled.matchHalves_eq hkeeps ?_ halved_nil⟩
  intro p hp
  refine hv p ?_
  rw [hsplit]
  exact List.mem_append_left _ hp

end Code

/-- A request and its reply in one call, on memory that is not touched when it is freed. -/
theorem stampRun_halves_reply :
    ∃ stamps packets s ps,
      stampRun littleEndianHost inetNtop4 (fun _ c => c) .live [[ntpFrame 0x23, ntpFrame 0x24]]
        [] (StampInput.init : StampInput Float) = some (stamps, packets, s) ∧
      [[ntpFrame 0x23, ntpFrame 0x24]].flatten = ps ++ packets ∧
      matchHalves (halvesOf littleEndianHost inetNtop4 ps) [] = (stamps, s.contents) := by
  refine stampRun_halves inetNtop4 (fun _ _ => ⟨rfl, rfl⟩) .live
    [[ntpFrame 0x23, ntpFrame 0x24]] ?_
  have hrequest : getVcount littleEndianHost (ntpFrame 0x23).packet ≠ some 0 := by decide
  have hreply : getVcount littleEndianHost (ntpFrame 0x24).packet ≠ some 0 := by decide
  simpa using ⟨hrequest, hreply⟩

end RADclock.Capture
