import RADclock.Capture.StampQueue

/-!
# The clean-out of the stamp queue (`create_stamp.c`)

The clean-out walks from the tail to the head, and compares each half with the full stamp it takes
out. From that stamp on to the head, it reads what is left of a freed element.

- `CleansOut`: the extraction from a queue does what it should, whatever is left in freed elements.
- `cleansOut_iff`: the queues from which it does.
-/

namespace RADclock.Capture

open Lib

variable {D : Type} {q : DList} {h : Heap (StampT D)} {us ws xs : List (Nat × StampT D)}
  {x : Nat × StampT D}

/-- Of a queue without a full stamp nothing is taken. Else the oldest full stamp is, and with it
all the halves that are dangerous next to it; the others stay in order. -/
structure CleansOut (q : DList) (h : Heap (StampT D)) (xs : List (Nat × StampT D)) : Prop where
  none : (∀ x ∈ xs, ¬ StampFull x.2) →
    ∀ scrub, getFullstampFromQueueAndclean scrub q h = some (none, q, h)
  some : ∀ us x ws, xs = us ++ x :: ws → Oldest (us.map Prod.snd) x.2 (ws.map Prod.snd) →
    ∀ scrub, ∃ q' h', getFullstampFromQueueAndclean scrub q h = some (some x.2, q', h') ∧
      IsList q' h' ((us ++ ws).filter fun w => ¬ Dangerous x.2.bst.Ta x.2 w.2)

/-- It is not up to the stamp that is taken out whether the clean-out keeps `stamp`. -/
def Settled (full stamp : StampT D) : Prop :=
  ¬ (ClientHalf stamp ∧ stamp.bst.Ta < full.bst.Ta) ∧
    ¬ (ServerHalf stamp ∧ stamp.bst.Tf ≠ 0xFFFFFFFFFFFFFFFF)

instance (full stamp : StampT D) : Decidable (Settled full stamp) :=
  inferInstanceAs (Decidable (¬ _ ∧ ¬ _))

theorem vcounter_le (v : VCounter) : v ≤ 0xFFFFFFFFFFFFFFFF := by
  rw [UInt64.le_iff_toNat_le]
  exact Nat.le_of_lt_succ v.toNat_lt

theorem Settled.not_dangerous {full stamp : StampT D} (hs : Settled full stamp)
    (left : StampT D) : ¬ Dangerous full.bst.Ta left stamp := by
  rintro (⟨hserver, hlt⟩ | ⟨hclient, -⟩)
  · refine hs.2 ⟨hserver, fun hmax => ?_⟩
    rw [hmax] at hlt
    exact UInt64.not_lt.mpr (vcounter_le left.bst.Tf) hlt
  · exact hs.1 hclient

/-- What is left behind the pointer decides about any other stamp. -/
theorem settled_iff {full stamp : StampT D} :
    Settled full stamp ↔ ∀ left, Dangerous full.bst.Ta left stamp ↔
      Dangerous full.bst.Ta full stamp := by
  refine ⟨fun hs left => iff_of_false (hs.not_dangerous left) (hs.not_dangerous full),
    fun hsame => ⟨?_, ?_⟩⟩
  · -- an address like its own, and another one
    rintro ⟨hclient, hlt⟩
    have hserver : ¬ ServerHalf stamp := fun hs => hclient.1 hs.1
    have hlike : Dangerous full.bst.Ta { full with serverIpaddr := stamp.serverIpaddr } stamp :=
      Or.inr ⟨⟨hclient, hlt⟩, rfl⟩
    have hother := (hsame { full with serverIpaddr := 'x' :: stamp.serverIpaddr }).mpr
      ((hsame _).mp hlike)
    rcases hother with ⟨hs, -⟩ | ⟨-, haddr⟩
    · exact hserver hs
    · exact List.cons_ne_self _ _ haddr.symm
  · -- the largest `Tf`, and the smallest one
    rintro ⟨hserver, hne⟩
    have hclient : ¬ ClientHalf stamp := fun hc => hc.1 hserver.1
    have hlarge : Dangerous full.bst.Ta
        { full with bst := { full.bst with Tf := 0xFFFFFFFFFFFFFFFF } } stamp :=
      Or.inl ⟨hserver, UInt64.lt_of_le_of_ne (vcounter_le _) hne⟩
    have hsmall := (hsame { full with bst := { full.bst with Tf := 0 } }).mpr
      ((hsame _).mp hlarge)
    rcases hsmall with ⟨-, hlt⟩ | ⟨⟨hc, -⟩, -⟩
    · exact UInt64.not_lt_zero hlt
    · exact hclient hc

theorem CleansOut.settled (hclean : CleansOut q h (us ++ x :: ws)) (hl : IsList q h (us ++ x :: ws))
    (holdest : Oldest (us.map Prod.snd) x.2 (ws.map Prod.snd)) : ∀ u ∈ us, Settled x.2 u.2 := by
  intro u hu
  refine settled_iff.mpr fun left => ?_
  -- an extraction that leaves `left` in what it frees
  let scrub (_ : Nat) (c : Cell (StampT D)) : Cell (StampT D) := { c with val := left }
  obtain ⟨q₁, h₁, hget₁, hl₁⟩ := hclean.some us x ws rfl holdest scrub
  obtain ⟨q₂, h₂, c, -, hget₂, hl₂⟩ := getFullstampFromQueueAndclean_some scrub hl holdest
  obtain ⟨rfl, rfl⟩ : q₁ = q₂ ∧ h₁ = h₂ := by
    have heq := Option.some.inj (hget₁.symm.trans hget₂)
    exact ⟨congrArg (fun r => r.2.1) heq, congrArg (fun r => r.2.2) heq⟩
  rw [List.filter_append] at hl₁
  have hus := List.append_cancel_right (hl₂.unique hl₁)
  have hmem := congrArg (u ∈ ·) hus
  simpa [hu, not_iff_not, scrub] using hmem

/-- The clean-out does what it should exactly for the queues where it is settled what becomes of
the elements between the oldest full stamp and the head. -/
theorem cleansOut_iff (hl : IsList q h xs) :
    CleansOut q h xs ↔ ∀ us x ws, xs = us ++ x :: ws →
      Oldest (us.map Prod.snd) x.2 (ws.map Prod.snd) → ∀ u ∈ us, Settled x.2 u.2 := by
  constructor
  · rintro hclean us x ws rfl holdest
    exact hclean.settled hl holdest
  · intro hsettled
    refine ⟨fun hnone scrub => getFullstampFromQueueAndclean_none scrub hl hnone, ?_⟩
    rintro us x ws rfl holdest scrub
    obtain ⟨q', h', c, -, hget, hl'⟩ := getFullstampFromQueueAndclean_some scrub hl holdest
    refine ⟨q', h', hget, ?_⟩
    have hus : us.filter (fun w => ¬ Dangerous x.2.bst.Ta (scrub x.1 c).val w.2) =
        us.filter fun w => ¬ Dangerous x.2.bst.Ta x.2 w.2 := by
      refine List.filter_congr fun u hu => ?_
      have hs := hsettled us x ws rfl holdest u hu
      simp [hs.not_dangerous]
    rwa [List.filter_append, ← hus]

/-- The request of id 1. -/
def waitingStamp : StampT Int :=
  { blankStamp 1 with serverIpaddr := "10.0.0.1".toList, bst := ⟨100, 0, 0, 0⟩ }

/-- The reply of id 2, and then its request. -/
def lateStamp : StampT Int :=
  { blankStamp 2 with serverIpaddr := "10.0.0.1".toList, bst := ⟨200, 0, 0, 50⟩ }

def lateHeap : Heap (StampT Int) where
  cell a := if a = 0 then some ⟨lateStamp, some 1, none⟩ else some ⟨waitingStamp, none, some 0⟩
  fresh := 2

theorem late_isList :
    IsList ⟨some 1, some 0, 2⟩ lateHeap [(1, waitingStamp), (0, lateStamp)] :=
  ⟨rfl, rfl, rfl, ⟨rfl, rfl, True.intro⟩, by decide, by simp [lateHeap]⟩

/-- The full stamp is at the tail, and is freed when the older request is met. -/
theorem not_cleansOut :
    ¬ ∀ (q : DList) (h : Heap (StampT Int)) (xs : List (Nat × StampT Int)), IsList q h xs →
      CleansOut q h xs := by
  intro hall
  have holdest : Oldest [waitingStamp] lateStamp [] :=
    ⟨by decide, by decide, fun _ hw => (nomatch hw)⟩
  have hclean : CleansOut _ _ ([(1, waitingStamp)] ++ (0, lateStamp) :: []) :=
    hall _ _ _ late_isList
  have hsettled := hclean.settled late_isList holdest (1, waitingStamp) List.mem_cons_self
  exact hsettled.1 (by decide)

/-- A stamp of the server with these counter values. -/
def stampFrom (server : String) (id : UInt64) (Ta Tf : VCounter) : StampT Int :=
  { blankStamp id with serverIpaddr := server.toList, bst := ⟨Ta, 0, 0, Tf⟩ }

/-- From the head: a newer request, a newer full stamp, and a reply that no counter value comes
after; the oldest full stamp; the request of another server, and a reply and a request that were
never completed. -/
def mixedQueue : List (Nat × StampT Int) :=
  [(0, stampFrom "10.0.0.1" 7 400 0), (1, stampFrom "10.0.0.1" 6 300 350),
    (2, stampFrom "10.0.0.1" 5 0 0xFFFFFFFFFFFFFFFF), (3, stampFrom "10.0.0.1" 4 200 250),
    (4, stampFrom "10.0.0.2" 3 150 0), (5, stampFrom "10.0.0.1" 2 0 120),
    (6, stampFrom "10.0.0.1" 1 100 0)]

def mixedHeap : Heap (StampT Int) where
  cell a := mixedQueue[a]?.map fun x =>
    ⟨x.2, if a = 0 then none else some (a - 1), if a = 6 then none else some (a + 1)⟩
  fresh := 7

/-- Every stamp nearer to the head than an oldest one, by the place of the latter. -/
theorem mixed_settled : ∀ i : Fin mixedQueue.length,
    (StampFull mixedQueue[i].2 ∧
      (∀ u ∈ mixedQueue.take i, StampFull u.2 → mixedQueue[i].2.bst.Ta ≤ u.2.bst.Ta) ∧
      ∀ w ∈ mixedQueue.drop (i + 1), StampFull w.2 → mixedQueue[i].2.bst.Ta < w.2.bst.Ta) →
    ∀ u ∈ mixedQueue.take i, Settled mixedQueue[i].2 u.2 := by
  decide

/-- Halves on both sides of the oldest full stamp: those behind it are removed with it, but for the
one of another server, and the reply next to the head is compared with what is left of it. -/
theorem cleansOut_mixed :
    CleansOut ⟨some 0, some 6, 7⟩ mixedHeap mixedQueue ∧
      ∀ scrub, ∃ q' h', getFullstampFromQueueAndclean scrub ⟨some 0, some 6, 7⟩ mixedHeap =
          some (some (stampFrom "10.0.0.1" 4 200 250), q', h') ∧
        IsList q' h' [(0, stampFrom "10.0.0.1" 7 400 0), (1, stampFrom "10.0.0.1" 6 300 350),
          (2, stampFrom "10.0.0.1" 5 0 0xFFFFFFFFFFFFFFFF),
          (4, stampFrom "10.0.0.2" 3 150 0)] := by
  have hl : IsList ⟨some 0, some 6, 7⟩ mixedHeap mixedQueue :=
    ⟨rfl, rfl, rfl, ⟨rfl, rfl, rfl, rfl, rfl, rfl, rfl, True.intro⟩, by decide, by
      simp [mixedQueue, mixedHeap]⟩
  have hclean : CleansOut ⟨some 0, some 6, 7⟩ mixedHeap mixedQueue := by
    refine (cleansOut_iff hl).mpr fun us x ws heq holdest u hu => ?_
    have hlt : us.length < mixedQueue.length := by
      rw [heq, List.length_append, List.length_cons]
      omega
    have htake : mixedQueue.take us.length = us := by rw [heq, List.take_left]
    have hdrop : mixedQueue.drop (us.length + 1) = ws := by
      rw [heq, List.drop_append, List.drop_eq_nil_of_le (Nat.le_succ _)]
      simp
    have hget : mixedQueue[us.length] = x := by simp [heq]
    have hall := mixed_settled ⟨us.length, hlt⟩
    simp only [Fin.getElem_fin, htake, hdrop, hget] at hall
    exact (hall ⟨holdest.full, fun v hv => holdest.le_of_head _ (List.mem_map_of_mem hv),
      fun v hv => holdest.lt_of_tail _ (List.mem_map_of_mem hv)⟩) u hu
  refine ⟨hclean, fun scrub => ?_⟩
  have holdest : Oldest ((mixedQueue.take 3).map Prod.snd) (stampFrom "10.0.0.1" 4 200 250)
      ((mixedQueue.drop 4).map Prod.snd) := ⟨by decide, by decide, by decide⟩
  obtain ⟨q', h', hget, hl'⟩ :=
    hclean.some _ (3, stampFrom "10.0.0.1" 4 200 250) _ rfl holdest scrub
  exact ⟨q', h', hget, hl'⟩

end RADclock.Capture
