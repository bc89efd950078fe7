import RADclock.Lib.DList
import RADclock.Stamp.Types

/-!
# The stamp queue (`create_stamp.c`)

Halves of stamps wait in a doubly linked list for the other half of the same id. A new id is
inserted at the head, in place of the tail element when the queue is full. A full stamp is taken
out together with the halves that became dangerous: they would be delivered out of order.

The clean-out compares the elements with the full stamp through a pointer into the queue, also
after that element has been freed. What is left in a freed element is a parameter.

- `insertandmatchHalfstamp`, `getFullstampFromQueueAndclean`: the code.
- `Inserted`, `Extracted`: what becomes of the elements.
- `stqRun_refines`: what any sequence of calls makes of the queue.
-/

namespace RADclock.Capture

open Lib

/-! ## The code -/

/-- `MAX_STQ_SIZE` -/
def maxStqSize : Int := 20

/-- `MODE_CLIENT` -/
def modeClient : Int := 3

/-- `MODE_SERVER` -/
def modeServer : Int := 4

variable {D : Type}

/-- An element as it is inserted. -/
def blankStamp [Zero D] (id : UInt64) : StampT D where
  type := .ntp
  id := id
  serverIpaddr := []
  ttl := 0
  stratum := 0
  LI := 0
  refid := 0
  rootdelay := 0
  rootdispersion := 0
  bst := 0

/-- The `switch` at the end of `insertandmatch_halfstamp`. -/
def fillHalf (mode : Int) (new stamp : StampT D) : StampT D :=
  if mode = modeClient then
    { stamp with
      -- `strncpy` of 16 characters into zeros
      serverIpaddr := new.serverIpaddr.take 16
      bst := { stamp.bst with Ta := new.bst.Ta } }
  else if mode = modeServer then
    { stamp with
      ttl := new.ttl
      refid := new.refid
      stratum := new.stratum
      LI := new.LI
      rootdelay := new.rootdelay
      rootdispersion := new.rootdispersion
      bst := { stamp.bst with Tb := new.bst.Tb, Te := new.bst.Te, Tf := new.bst.Tf } }
  else stamp

/-- The half of `mode` is there already. -/
def HasHalf (mode : Int) (stamp : StampT D) : Prop :=
  mode = modeClient ∧ stamp.bst.Ta ≠ 0 ∨ mode = modeServer ∧ stamp.bst.Tf ≠ 0

instance (mode : Int) (stamp : StampT D) : Decidable (HasHalf mode stamp) :=
  inferInstanceAs (Decidable (_ ∨ _))

section

variable (scrub : Nat → Cell (StampT D) → Cell (StampT D))

/-- If queue too long, trim off last element. -/
def trimQueue (q : DList) (h : Heap (StampT D)) : Option (DList × Heap (StampT D)) :=
  if q.size = maxStqSize then q.trimLast scrub h else some (q, h)

/-- `insertandmatch_halfstamp`, with its return code. -/
def insertandmatchHalfstamp [Zero D] (q : DList) (h : Heap (StampT D)) (new : StampT D)
    (mode : Int) : Option (Int × DList × Heap (StampT D)) :=
  if mode ≠ modeClient ∧ mode ≠ modeServer then some (-1, q, h)
  else do
    let qel ← DList.findNext (fun stamp => stamp.id = new.id) h h.fresh q.start
    match qel with
    | some _ =>
      let c ← h.load qel
      if HasHalf mode c.val then pure (1, q, h)
      else
        let h ← h.modify qel fun c => { c with val := fillHalf mode new c.val }
        pure (0, q, h)
    | none =>
      let (q, h) ← trimQueue scrub q h
      let (q, h) ← q.pushFront (blankStamp new.id) h
      let h ← h.modify q.start fun c => { c with val := fillHalf mode new c.val }
      pure (1, q, h)

/-- `fullstamp` -/
def StampFull (stamp : StampT D) : Prop := stamp.bst.Ta ≠ 0 ∧ stamp.bst.Tf ≠ 0

/-- `c_halfstamp` -/
def ClientHalf (stamp : StampT D) : Prop := stamp.bst.Ta ≠ 0 ∧ stamp.bst.Tf = 0

/-- `s_halfstamp` -/
def ServerHalf (stamp : StampT D) : Prop := stamp.bst.Ta = 0 ∧ stamp.bst.Tf ≠ 0

/-- `dangerous`; what `full_st` points to is `full`. -/
def Dangerous (fullTime : VCounter) (full stamp : StampT D) : Prop :=
  ServerHalf stamp ∧ stamp.bst.Tf < full.bst.Tf ∨
    (ClientHalf stamp ∧ stamp.bst.Ta < fullTime) ∧ stamp.serverIpaddr = full.serverIpaddr

instance (stamp : StampT D) : Decidable (StampFull stamp) := inferInstanceAs (Decidable (_ ∧ _))

instance (stamp : StampT D) : Decidable (ClientHalf stamp) := inferInstanceAs (Decidable (_ ∧ _))

instance (stamp : StampT D) : Decidable (ServerHalf stamp) := inferInstanceAs (Decidable (_ ∧ _))

instance (fullTime : VCounter) (full stamp : StampT D) :
    Decidable (Dangerous fullTime full stamp) :=
  inferInstanceAs (Decidable (_ ∨ _))

/-- One element of the first scan: `full_time`, and the address of `full_st`. -/
def scanFull (found : VCounter × Ptr) (a : Nat) (stamp : StampT D) : VCounter × Ptr :=
  if StampFull stamp ∧ (found.1 = 0 ∨ stamp.bst.Ta < found.1) then (stamp.bst.Ta, some a)
  else found

/-- `get_fullstamp_from_queue_andclean`, with the stamp it copies out; `none` is the return code
`1`. -/
def getFullstampFromQueueAndclean (q : DList) (h : Heap (StampT D)) :
    Option (Option (StampT D) × DList × Heap (StampT D)) :=
  if q.size = 0 then some (none, q, h)
  else do
    -- Scan queue from tail to head to find oldest full stamp
    let (fullTime, fullSt) ← DList.foldPrev scanFull h h.fresh q.stop (0, none)
    if 0 < fullTime then
      let full ← h.load fullSt
      -- Scan queue, removing chosen fullstamp, and dangerous halfstamps
      let (q, h) ← DList.sweepPrev scrub
        (fun full a stamp => some a = fullSt ∨ Dangerous fullTime full stamp) fullSt h.fresh q.stop
        q h
      pure (some full.val, q, h)
    else pure (none, q, h)

end

/-! ## What becomes of the elements -/

/-- The queue without its last element, if it is full. -/
def trimmed (q : List (StampT D)) : List (StampT D) :=
  if (q.length : Int) = maxStqSize then q.dropLast else q

/-- A push of `new`, with the return code. -/
inductive Inserted [Zero D] (mode : Int) (new : StampT D) :
    List (StampT D) → Int → List (StampT D) → Prop where
  | unsupported {q : List (StampT D)} (hmode : mode ≠ modeClient ∧ mode ≠ modeServer) :
      Inserted mode new q (-1) q
  | duplicate {us ws : List (StampT D)} {stamp : StampT D}
      (hmode : mode = modeClient ∨ mode = modeServer) (hus : ∀ u ∈ us, u.id ≠ new.id)
      (hid : stamp.id = new.id) (hhalf : HasHalf mode stamp) :
      Inserted mode new (us ++ stamp :: ws) 1 (us ++ stamp :: ws)
  | filled {us ws : List (StampT D)} {stamp : StampT D}
      (hmode : mode = modeClient ∨ mode = modeServer) (hus : ∀ u ∈ us, u.id ≠ new.id)
      (hid : stamp.id = new.id) (hhalf : ¬ HasHalf mode stamp) :
      Inserted mode new (us ++ stamp :: ws) 0 (us ++ fillHalf mode new stamp :: ws)
  | pushed {q : List (StampT D)} (hmode : mode = modeClient ∨ mode = modeServer)
      (hq : ∀ u ∈ q, u.id ≠ new.id) :
      Inserted mode new q 1 (fillHalf mode new (blankStamp new.id) :: trimmed q)

/-- The full stamp of `us ++ stamp :: ws` with the smallest `Ta`, nearest to the tail. -/
structure Oldest (us : List (StampT D)) (stamp : StampT D) (ws : List (StampT D)) : Prop where
  full : StampFull stamp
  le_of_head : ∀ u ∈ us, StampFull u → stamp.bst.Ta ≤ u.bst.Ta
  lt_of_tail : ∀ w ∈ ws, StampFull w → stamp.bst.Ta < w.bst.Ta

/-- The elements that the clean-out keeps, when it finds `left` behind the pointer. -/
def kept (full left : StampT D) (q : List (StampT D)) : List (StampT D) :=
  q.filter fun stamp => ¬ Dangerous full.bst.Ta left stamp

/-- What may be left of `full` once it is freed. -/
def LeftOf (scrub : Nat → Cell (StampT D) → Cell (StampT D)) (full left : StampT D) : Prop :=
  ∃ a c, c.val = full ∧ (scrub a c).val = left

/-- The extraction, with the stamp delivered. -/
inductive Extracted (scrub : Nat → Cell (StampT D) → Cell (StampT D)) :
    List (StampT D) → Option (StampT D) → List (StampT D) → Prop where
  | none {q : List (StampT D)} (hq : ∀ stamp ∈ q, ¬ StampFull stamp) : Extracted scrub q none q
  | some {us ws : List (StampT D)} {full left : StampT D} (holdest : Oldest us full ws)
      (hleft : LeftOf scrub full left) :
      Extracted scrub (us ++ full :: ws) (some full) (kept full left us ++ kept full full ws)

/-! ## Pushes -/

section Push

variable {q : DList} {h : Heap (StampT D)}
  {xs : List (Nat × StampT D)} {mode : Int} {new stamp : StampT D}

@[simp]
theorem fillHalf_id (mode : Int) (new stamp : StampT D) : (fillHalf mode new stamp).id =
    stamp.id := by
  unfold fillHalf
  split_ifs <;> rfl

theorem trimQueue_spec (scrub : Nat → Cell (StampT D) → Cell (StampT D)) (hl : IsList q h xs) :
    ∃ q' h' xs', trimQueue scrub q h = some (q', h') ∧ IsList q' h' xs' ∧
      xs'.map Prod.snd = trimmed (xs.map Prod.snd) := by
  unfold trimQueue trimmed
  rw [hl.size, List.length_map]
  split_ifs with hsize
  · -- of 20 elements there are two at the tail
    rcases List.eq_nil_or_concat' xs with rfl | ⟨xs, y, rfl⟩
    · exact nomatch hsize
    rcases List.eq_nil_or_concat' xs with rfl | ⟨xs, x, rfl⟩
    · exact absurd hsize (by simp [maxStqSize])
    obtain ⟨q', h', htrim, hl'⟩ := DList.trimLast_spec scrub hl
    refine ⟨q', h', _, htrim, hl', ?_⟩
    simp only [List.map_append, List.map_singleton, List.dropLast_concat]
  · exact ⟨q, h, xs, rfl, hl, rfl⟩

theorem insertandmatchHalfstamp_spec [Zero D] (scrub : Nat → Cell (StampT D) → Cell (StampT D))
    (hl : IsList q h xs) (new : StampT D) (mode : Int) :
    ∃ r q' h' xs', insertandmatchHalfstamp scrub q h new mode = some (r, q', h') ∧
      IsList q' h' xs' ∧ Inserted mode new (xs.map Prod.snd) r (xs'.map Prod.snd) := by
  unfold insertandmatchHalfstamp
  by_cases hmode : mode ≠ modeClient ∧ mode ≠ modeServer
  · exact ⟨-1, q, h, xs, if_pos hmode, hl, .unsupported hmode⟩
  rw [if_neg hmode]
  have hmode' : mode = modeClient ∨ mode = modeServer := by tauto
  cases hfind : xs.find? fun x => x.2.id = new.id with
  | none =>
    -- a new id
    have hnew : ∀ x ∈ xs, decide (x.2.id = new.id) = false := by
      simpa only [Bool.not_eq_true] using List.find?_eq_none.mp hfind
    have hq : ∀ u ∈ xs.map Prod.snd, u.id ≠ new.id :=
      List.forall_mem_map.mpr fun x hx => of_decide_eq_false (hnew x hx)
    obtain ⟨q₁, h₁, xs₁, htrim, hl₁, hxs₁⟩ := trimQueue_spec scrub hl
    obtain ⟨q₂, h₂, hpush, hl₂⟩ := DList.pushFront_spec hl₁ (blankStamp new.id)
    have hhead : IsList q₂ h₂ ([] ++ (h₁.fresh, blankStamp new.id) :: xs₁) := hl₂
    obtain ⟨h₃, hfill, hl₃⟩ := hhead.set_val (fillHalf mode new)
    have hstart : q₂.start = some h₁.fresh := hl₂.start
    refine ⟨1, q₂, h₃, _, ?_, hl₃, ?_⟩
    · rw [hl.start, DList.findNext_none hl.linked hl.length_le hnew]
      simp only [Option.bind_eq_bind, Option.bind_some, Option.pure_def, htrim, hpush, hstart,
        hfill]
    · rw [List.nil_append, List.map_cons, hxs₁]
      exact .pushed hmode' hq
  | some x =>
    obtain ⟨hfound, us, ws, rfl, hus⟩ := List.find?_eq_some_iff_append.mp hfind
    have hid : x.2.id = new.id := of_decide_eq_true hfound
    simp only [Bool.not_eq_true'] at hus
    have hq : ∀ u ∈ us.map Prod.snd, u.id ≠ new.id :=
      List.forall_mem_map.mpr fun u hu => of_decide_eq_false (hus u hu)
    rw [hl.start, DList.findNext_some hl.linked hl.length_le hus hfound]
    simp only [Option.bind_eq_bind, Option.bind_some, Option.pure_def, Heap.load_some hl.cell]
    by_cases hhalf : HasHalf mode x.2
    · refine ⟨1, q, h, us ++ x :: ws, if_pos hhalf, hl, ?_⟩
      rw [List.map_append, List.map_cons]
      exact .duplicate hmode' hq hid hhalf
    · obtain ⟨h', hfill, hl'⟩ := hl.set_val (fillHalf mode new)
      refine ⟨0, q, h', _, ?_, hl', ?_⟩
      · rw [if_neg hhalf, hfill]
        rfl
      · rw [List.map_append, List.map_cons, List.map_append, List.map_cons]
        exact .filled hmode' hq hid hhalf

end Push

/-! ## Extractions -/

section Extract

variable {q : DList} {h : Heap (StampT D)} {us ws xs : List (Nat × StampT D)} {x : Nat × StampT D}
  {found : VCounter × Ptr}

theorem exists_oldest (q : List (StampT D)) :
    (∀ stamp ∈ q, ¬ StampFull stamp) ∨ ∃ us full ws, q = us ++ full :: ws ∧ Oldest us full ws := by
  induction q with
  | nil => exact Or.inl fun _ hs => (nomatch hs)
  | cons stamp q ih =>
    rcases ih with hnone | ⟨us, full, ws, rfl, holdest⟩
    · by_cases hfull : StampFull stamp
      · exact Or.inr ⟨[], stamp, q, rfl, hfull, fun _ hu => (nomatch hu),
          fun w hw hwfull => absurd hwfull (hnone w hw)⟩
      · exact Or.inl (List.forall_mem_cons.mpr ⟨hfull, hnone⟩)
    · refine Or.inr ?_
      by_cases hlt : StampFull stamp ∧ stamp.bst.Ta < full.bst.Ta
      · -- it is older than the oldest of the rest
        refine ⟨[], stamp, us ++ full :: ws, rfl, hlt.1, fun _ hu =>
          (nomatch hu), fun w hw hwfull => ?_⟩
        refine UInt64.lt_of_lt_of_le hlt.2 ?_
        rcases List.mem_append.mp hw with hw | hw
        · exact holdest.le_of_head w hw hwfull
        · rcases List.mem_cons.mp hw with rfl | hw
          · exact UInt64.le_refl _
          · exact UInt64.le_of_lt (holdest.lt_of_tail w hw hwfull)
      · exact ⟨stamp :: us, full, ws, rfl, holdest.full,
          List.forall_mem_cons.mpr ⟨fun hfull => UInt64.not_lt.mp fun h' => hlt ⟨hfull, h'⟩,
            holdest.le_of_head⟩, holdest.lt_of_tail⟩

/-- Stamps that are not full, or not older, change nothing. -/
theorem scanFull_skip (hxs : ∀ x ∈ xs, StampFull x.2 → found.1 ≠ 0 ∧ found.1 ≤ x.2.bst.Ta) :
    xs.foldr (fun x b => scanFull b x.1 x.2) found = found := by
  induction xs with
  | nil => rfl
  | cons x xs ih =>
    obtain ⟨hx, hxs⟩ := List.forall_mem_cons.mp hxs
    rw [List.foldr_cons, ih hxs, scanFull, if_neg]
    rintro ⟨hfull, hzero | hlt⟩
    · exact (hx hfull).1 hzero
    · exact absurd hlt (UInt64.not_lt.mpr (hx hfull).2)

/-- What is found among younger stamps is younger. -/
theorem lt_scanFull {t : VCounter} (hws : ∀ w ∈ ws, StampFull w.2 → t < w.2.bst.Ta) :
    let found := ws.foldr (fun x b => scanFull b x.1 x.2) (0, none)
    found.1 = 0 ∨ t < found.1 := by
  induction ws with
  | nil => exact Or.inl rfl
  | cons w ws ih =>
    obtain ⟨hw, hws⟩ := List.forall_mem_cons.mp hws
    simp only [List.foldr_cons, scanFull]
    split_ifs with htaken
    · exact Or.inr (hw htaken.1)
    · exact ih hws

/-- The first scan finds the oldest full stamp. -/
theorem scanFull_oldest (hx : Oldest (us.map Prod.snd) x.2 (ws.map Prod.snd)) :
    (us ++ x :: ws).foldr (fun x b => scanFull b x.1 x.2) (0, none) =
      (x.2.bst.Ta, some x.1) := by
  have htail := lt_scanFull (List.forall_mem_map.mp hx.lt_of_tail)
  rw [List.foldr_append, List.foldr_cons, scanFull, if_pos ⟨hx.full, htail⟩]
  exact scanFull_skip fun u hu hfull =>
    ⟨hx.full.1, List.forall_mem_map.mp hx.le_of_head u hu hfull⟩

theorem map_snd_filter_dangerous (full left : StampT D) (ys : List (Nat × StampT D)) :
    (ys.filter fun w => ¬ Dangerous full.bst.Ta left w.2).map Prod.snd =
      kept full left (ys.map Prod.snd) := by
  rw [kept, List.filter_map]
  rfl

variable (scrub : Nat → Cell (StampT D) → Cell (StampT D))

theorem getFullstampFromQueueAndclean_none (hl : IsList q h xs)
    (hxs : ∀ x ∈ xs, ¬ StampFull x.2) :
    getFullstampFromQueueAndclean scrub q h = some (none, q, h) := by
  unfold getFullstampFromQueueAndclean
  split_ifs with hsize
  · rfl
  · have hscan : xs.foldr (fun x b => scanFull b x.1 x.2) (0, none) = (0, none) :=
      scanFull_skip fun x hx hfull => absurd hfull (hxs x hx)
    rw [hl.stop, DList.foldPrev_spec scanFull hl.linked hl.length_le, hscan]
    rfl

theorem getFullstampFromQueueAndclean_some (hl : IsList q h (us ++ x :: ws))
    (hx : Oldest (us.map Prod.snd) x.2 (ws.map Prod.snd)) :
    ∃ q' h', ∃ c : Cell (StampT D), c.val = x.2 ∧
      getFullstampFromQueueAndclean scrub q h = some (some x.2, q', h') ∧
      IsList q' h'
        (us.filter (fun w => ¬ Dangerous x.2.bst.Ta (scrub x.1 c).val w.2) ++
          ws.filter fun w => ¬ Dangerous x.2.bst.Ta x.2 w.2) := by
  have hne : ∀ w ∈ us ++ ws, some w.1 ≠ some x.1 := fun w hw heq =>
    hl.nodup_middle.1 (Option.some.inj heq ▸ List.mem_map_of_mem hw)
  let test (full : StampT D) (a : Nat) (stamp : StampT D) : Bool :=
    some a = some x.1 ∨ Dangerous x.2.bst.Ta full stamp
  have hkeep (r : StampT D) (ys : List (Nat × StampT D)) (hys : ys ⊆ us ++ ws) :
      ys.filter (fun w => !test r w.1 w.2) = ys.filter fun w => ¬ Dangerous x.2.bst.Ta r w.2 :=
    List.filter_congr fun w hw => by simp [test, Option.some_inj.not.mp (hne w (hys hw))]
  obtain ⟨q', h', c, hc, hsweep, hl', -⟩ :=
    DList.sweepPrev_spec scrub test hl (by simp [test]) hl.length_le
  rw [hkeep _ us (List.subset_append_left us ws), hkeep _ ws (List.subset_append_right us ws)]
    at hl'
  refine ⟨q', h', c, hc, ?_, hl'⟩
  have hsize : q.size ≠ 0 := by
    rw [hl.size]
    simp
    omega
  have hpos : 0 < x.2.bst.Ta := UInt64.pos_iff_ne_zero.mpr hx.full.1
  unfold getFullstampFromQueueAndclean
  rw [if_neg hsize, hl.stop, DList.foldPrev_spec scanFull hl.linked hl.length_le,
    scanFull_oldest hx]
  simp only [Option.bind_eq_bind, Option.bind_some, Option.pure_def, if_pos hpos,
    Heap.load_some hl.cell]
  rw [hsweep]
  rfl

theorem getFullstampFromQueueAndclean_spec (hl : IsList q h xs) :
    ∃ o q' h' xs', getFullstampFromQueueAndclean scrub q h = some (o, q', h') ∧
      IsList q' h' xs' ∧ Extracted scrub (xs.map Prod.snd) o (xs'.map Prod.snd) := by
  rcases exists_oldest (xs.map Prod.snd) with hnone | ⟨_, _, _, heq, holdest⟩
  · have hxs : ∀ x ∈ xs, ¬ StampFull x.2 := fun x hx => hnone x.2 (List.mem_map_of_mem hx)
    exact ⟨none, q, h, xs, getFullstampFromQueueAndclean_none scrub hl hxs, hl, .none hnone⟩
  · obtain ⟨us, _, rfl, rfl, hrest⟩ := List.map_eq_append_iff.mp heq
    obtain ⟨x, ws, rfl, rfl, rfl⟩ := List.map_eq_cons_iff.mp hrest
    obtain ⟨q', h', c, hc, hget, hl'⟩ := getFullstampFromQueueAndclean_some scrub hl holdest
    refine ⟨some x.2, q', h', _, hget, hl', ?_⟩
    rw [heq, List.map_append, map_snd_filter_dangerous, map_snd_filter_dangerous]
    exact .some holdest ⟨x.1, c, hc, rfl⟩

end Extract

/-! ## Runs -/

/-- What the ids and the length of the queue keep to. -/
structure Queued (q : List (StampT D)) : Prop where
  nodup : (q.map StampT.id).Nodup
  length_le : (q.length : Int) ≤ maxStqSize

section Queued

variable {q q' : List (StampT D)}

theorem queued_nil : Queued ([] : List (StampT D)) where
  nodup := List.nodup_nil
  length_le := show (0 : Int) ≤ 20 by decide

theorem Queued.sublist (h : Queued q) (hsub : q'.Sublist q) : Queued q' where
  nodup := h.nodup.sublist (hsub.map _)
  length_le := (Int.ofNat_le.mpr hsub.length_le).trans h.length_le

theorem trimmed_sublist (q : List (StampT D)) : (trimmed q).Sublist q := by
  unfold trimmed
  split_ifs
  · exact List.dropLast_sublist q
  · exact List.Sublist.refl q

theorem Queued.trimmed_length_lt (h : Queued q) : ((trimmed q).length : Int) < maxStqSize := by
  have hlen := h.length_le
  unfold trimmed maxStqSize at *
  split_ifs <;> simp <;> omega

theorem Inserted.queued [Zero D] {mode r : Int} {new : StampT D} (hi : Inserted mode new q r q')
    (h : Queued q) : Queued q' := by
  cases hi with
  | unsupported => exact h
  | duplicate => exact h
  | filled =>
    refine ⟨?_, ?_⟩
    · simpa using h.nodup
    · simpa using h.length_le
  | pushed hmode hq =>
    refine ⟨?_, ?_⟩
    · rw [List.map_cons, fillHalf_id]
      refine List.nodup_cons.mpr ⟨?_, (h.sublist (trimmed_sublist q)).nodup⟩
      rintro hmem
      obtain ⟨u, hu, hid⟩ := List.mem_map.mp hmem
      exact hq u ((trimmed_sublist q).subset hu) hid
    · rw [List.length_cons]
      exact h.trimmed_length_lt

theorem Extracted.sublist {scrub : Nat → Cell (StampT D) → Cell (StampT D)}
    {o : Option (StampT D)} (he : Extracted scrub q o q') : q'.Sublist q := by
  cases he with
  | none => exact List.Sublist.refl q
  | some =>
    exact List.filter_sublist.append (List.filter_sublist.trans (List.sublist_cons_self _ _))

end Queued

/-- A call on the queue. -/
inductive StqOp (D : Type) where
  | insertandmatch (new : StampT D) (mode : Int)
  | getFullstamp

section Runs

variable [Zero D] (scrub : Nat → Cell (StampT D) → Cell (StampT D))

/-- The queue after a call. -/
def stqStep (s : DList × Heap (StampT D)) : StqOp D → Option (DList × Heap (StampT D))
  | .insertandmatch new mode => (insertandmatchHalfstamp scrub s.1 s.2 new mode).map Prod.snd
  | .getFullstamp => (getFullstampFromQueueAndclean scrub s.1 s.2).map Prod.snd

/-- The queue after calls on an empty one. -/
def stqRun (ops : List (StqOp D)) : Option (DList × Heap (StampT D)) :=
  ops.foldlM (stqStep scrub) (DList.empty, Heap.empty)

/-- The elements after a call. -/
inductive Called : StqOp D → List (StampT D) → List (StampT D) → Prop where
  | insertandmatch {new : StampT D} {mode r : Int} {q q' : List (StampT D)}
      (hi : Inserted mode new q r q') : Called (.insertandmatch new mode) q q'
  | getFullstamp {o : Option (StampT D)} {q q' : List (StampT D)}
      (he : Extracted scrub q o q') : Called .getFullstamp q q'

/-- The elements after calls on an empty queue. -/
inductive CalledRun : List (StqOp D) → List (StampT D) → Prop where
  | nil : CalledRun [] []
  | snoc {ops : List (StqOp D)} {op : StqOp D} {q q' : List (StampT D)} (hrun : CalledRun ops q)
      (hcall : Called scrub op q q') : CalledRun (ops ++ [op]) q'

variable {q : DList} {h : Heap (StampT D)} {xs : List (Nat × StampT D)}

theorem stqStep_spec (hl : IsList q h xs) (op : StqOp D) :
    ∃ q' h' xs', stqStep scrub (q, h) op = some (q', h') ∧ IsList q' h' xs' ∧
      Called scrub op (xs.map Prod.snd) (xs'.map Prod.snd) := by
  cases op with
  | insertandmatch new mode =>
    obtain ⟨r, q', h', xs', hcode, hl', hi⟩ := insertandmatchHalfstamp_spec scrub hl new mode
    exact ⟨q', h', xs', by rw [stqStep, hcode]; rfl, hl', .insertandmatch hi⟩
  | getFullstamp =>
    obtain ⟨o, q', h', xs', hcode, hl', he⟩ := getFullstampFromQueueAndclean_spec scrub hl
    exact ⟨q', h', xs', by rw [stqStep, hcode]; rfl, hl', .getFullstamp he⟩

variable {scrub} in
theorem Called.queued {op : StqOp D} {q q' : List (StampT D)} (hc : Called scrub op q q')
    (h : Queued q) : Queued q' := by
  cases hc with
  | insertandmatch hi => exact hi.queued h
  | getFullstamp he => exact h.sublist he.sublist

theorem stqRun_spec (ops : List (StqOp D)) :
    ∃ q h xs, stqRun scrub ops = some (q, h) ∧ IsList q h xs ∧
      CalledRun scrub ops (xs.map Prod.snd) ∧ Queued (xs.map Prod.snd) := by
  induction ops using List.reverseRecOn with
  | nil => exact ⟨_, _, [], rfl, isList_empty, .nil, queued_nil⟩
  | append_singleton ops op ih =>
    obtain ⟨q, h, xs, hrun, hl, hcalled, hqueued⟩ := ih
    obtain ⟨q', h', xs', hstep, hl', hcall⟩ := stqStep_spec scrub hl op
    refine ⟨q', h', xs', ?_, hl', hcalled.snoc hcall, hcall.queued hqueued⟩
    unfold stqRun at hrun ⊢
    rw [List.foldlM_append, hrun]
    simp [hstep]

/-- Calls in any order keep the queue a doubly linked list of at most 20 elements with distinct
ids, and make of these what a push, a trim and a filter make of a list. -/
theorem stqRun_refines (ops : List (StqOp D)) :
    ∃ (q : DList) (h : Heap (StampT D)) (xs : List (Nat × StampT D)),
      stqRun scrub ops = some (q, h) ∧ CalledRun scrub ops (xs.map Prod.snd) ∧
        (∀ x ∈ xs, h.val x.1 = some x.2) ∧
      (xs.map fun x => x.2.id).Nodup ∧ q.size = xs.length ∧ q.size ≤ maxStqSize ∧
      NextChain h q.start (xs.map Prod.fst) ∧ PrevChain h q.stop (xs.map Prod.fst).reverse ∧
      (q.start = none ↔ q.size = 0) ∧ (q.stop = none ↔ q.size = 0) := by
  obtain ⟨q, h, xs, hrun, hl, hcalled, hqueued⟩ := stqRun_spec scrub ops
  have hsize : q.size = 0 ↔ xs = [] := by simp [hl.size]
  refine ⟨q, h, xs, hrun, hcalled, fun x hx => hl.val hx, ?_, hl.size, ?_, ?_, ?_, ?_, ?_⟩
  · have hnodup := hqueued.nodup
    rwa [List.map_map] at hnodup
  · have hlen := hqueued.length_le
    rwa [List.length_map, ← hl.size] at hlen
  · rw [hl.start]
    exact hl.linked.nextChain
  · rw [hl.stop]
    exact hl.linked.prevChain
  · rw [hl.start_eq_none, hsize]
  · rw [hl.stop_eq_none, hsize]

end Runs

end RADclock.Capture
