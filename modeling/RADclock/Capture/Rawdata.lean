import RADclock.Lib.Chain
import RADclock.Lib.Runs

/-!
# The raw data queue (`rawdata.c`)

The capture thread links each raw data bundle behind the newest one (`rdb_start`), in one critical
section. The processing thread takes bundles from the oldest one (`rdb_end`) without the lock, and
holds it only to unlink and free. It marks a bundle as read when it has delivered it, leaves it in
the list as an anchor, and frees it on its next visit, unless it is the newest.

The processing thread is modelled statement by statement, each access to shared memory one step,
so that an insertion can come in between any two of them. Memory that is not allocated faults.

- `Queue`, `ReaderPc`, `queueStep`: the shared memory, the statements, and the interleaving.
- `QueueInv`: the list as it lies in memory, and where the reader stands in it.
- `rank`: the steps of the reader until a bundle is delivered.
-/

namespace RADclock.Capture

open Lib

variable {α : Type} [DecidableEq α]

/-- A raw data bundle: its number, in the order of capture, and whether it has been read. -/
structure RawDataBundle where
  seq : Nat
  read : Bool
deriving DecidableEq, Repr

/-- The statements of `free_and_cherrypick` and of the delivery after it. -/
inductive ReaderPc (α : Type) where
  /-- `rdb = rq->rdb_end` -/
  | begin
  /-- `while (rdb != rq->rdb_start)` -/
  | test (rdb : Option α)
  /-- `if (rdb->read == 0)` -/
  | testRead (rdb : Option α)
  /-- `rdb_tofree = rdb; rdb = rdb->next` -/
  | advance (rdb : Option α)
  /-- The critical section. -/
  | unlink (tofree : Option α) (rdb : Option α)
  /-- `if (rdb->read == 1)` -/
  | testAnchor (rdb : Option α)
  /-- The bundle is copied. -/
  | deliver (rdb : Option α)
  /-- `rdb->read = 1` -/
  | mark (rdb : Option α)

/-- The queue and the reader. -/
structure Queue (α : Type) where
  heap : α → Option (Node α RawDataBundle)
  rdbStart : Option α
  rdbEnd : Option α
  pc : ReaderPc α
  /-- The number of bundles inserted. -/
  inserted : Nat
  /-- The bundles delivered and freed, in order. -/
  delivered : List Nat
  freed : List Nat
  /-- Memory that is not allocated has been accessed. -/
  fault : Bool

def Queue.empty : Queue α :=
  { heap := fun _ => none, rdbStart := none, rdbEnd := none, pc := .begin, inserted := 0
    delivered := [], freed := [], fault := false }

/-- The node at a pointer. -/
def Queue.load (q : Queue α) (p : Option α) : Option (α × Node α RawDataBundle) :=
  p.bind fun a => (q.heap a).map fun n => (a, n)

/-- Go on with the node at a pointer, or fault. -/
def Queue.deref (q : Queue α) (p : Option α) (f : α → Node α RawDataBundle → Queue α) : Queue α :=
  match q.load p with
  | some (a, n) => f a n
  | none => { q with fault := true }

/-- `insert_rdb_in_list`, of a new bundle. -/
def insertRdbInList (q : Queue α) (rdb : α) : Queue α :=
  let q := { q with heap := Function.update q.heap rdb (some ⟨none, ⟨q.inserted, false⟩⟩)
                    inserted := q.inserted + 1 }
  let q := match q.rdbStart with
    | none => q
    | some start => q.deref (some start) fun a n =>
        { q with heap := Function.update q.heap a (some { n with next := some rdb }) }
  { q with rdbStart := some rdb
           rdbEnd := match q.rdbEnd with
             | none => some rdb
             | some a => some a }

/-- The next statement of the reader. -/
def readerStep (q : Queue α) : Queue α :=
  match q.pc with
  | .begin => match q.rdbEnd with
    | none => q
    | some a => { q with pc := .test (some a) }
  | .test rdb => if rdb = q.rdbStart then { q with pc := .testAnchor rdb }
    else { q with pc := .testRead rdb }
  | .testRead rdb => q.deref rdb fun _ n =>
      if n.val.read then { q with pc := .advance rdb } else { q with pc := .testAnchor rdb }
  | .advance rdb => q.deref rdb fun _ n => { q with pc := .unlink rdb n.next }
  | .unlink tofree rdb => q.deref tofree fun a n =>
      { q with
        rdbEnd := rdb, heap := Function.update q.heap a none, pc := .test rdb
        freed := q.freed ++ [n.val.seq] }
  | .testAnchor rdb => q.deref rdb fun _ n =>
      if n.val.read then { q with pc := .begin } else { q with pc := .deliver rdb }
  | .deliver rdb => q.deref rdb fun _ n =>
      { q with pc := .mark rdb, delivered := q.delivered ++ [n.val.seq] }
  | .mark rdb => q.deref rdb fun a n =>
      { q with
        pc := .begin
        heap := Function.update q.heap a (some { n with val := { n.val with read := true } }) }

omit [DecidableEq α] in
theorem deref_inserted (q : Queue α) (p : Option α) {f : α → Node α RawDataBundle → Queue α}
    (hf : ∀ a n, (f a n).inserted = q.inserted) : (q.deref p f).inserted = q.inserted := by
  unfold Queue.deref
  split
  · exact hf _ _
  · rfl

theorem inserted_readerStep (q : Queue α) : (readerStep q).inserted = q.inserted := by
  unfold readerStep
  split
  · split <;> rfl
  · split <;> rfl
  all_goals
    refine deref_inserted q _ fun a n => ?_
    first | rfl | (split <;> rfl)

/-- A step of one of the threads. -/
inductive QueueAct (α : Type) where
  | insert (rdb : α)
  | read
deriving DecidableEq

/-- The allocator does not return memory that is in use. -/
def queueStep (q : Queue α) : QueueAct α → Queue α
  | .insert rdb => if (q.heap rdb).isSome then q else insertRdbInList q rdb
  | .read => readerStep q

/-! ## The list in memory -/

/-- The reader has copied the bundle and not yet marked it. -/
def ReaderPc.marking : ReaderPc α → Bool
  | .mark _ => true
  | _ => false

/-- Whether the oldest bundle has been delivered. -/
def headDone (pc : ReaderPc α) : List (α × RawDataBundle) → Nat
  | [] => 0
  | x :: _ => if x.2.read || pc.marking then 1 else 0

/-- Where the reader stands: always at the oldest bundle. -/
def Place (l : List (α × RawDataBundle)) : ReaderPc α → Prop
  | .begin => True
  | .test rdb | .testAnchor rdb => ∃ x l', l = x :: l' ∧ rdb = some x.1
  | .testRead rdb => ∃ x y l', l = x :: y :: l' ∧ rdb = some x.1
  | .advance rdb => ∃ x y l', l = x :: y :: l' ∧ rdb = some x.1 ∧ x.2.read = true
  | .unlink tofree rdb => ∃ x y l', l = x :: y :: l' ∧ tofree = some x.1 ∧ rdb = some y.1 ∧
      x.2.read = true
  | .deliver rdb | .mark rdb => ∃ x l', l = x :: l' ∧ rdb = some x.1 ∧ x.2.read = false

/-- The list, from the oldest bundle to the newest, is all that is allocated. Its bundles are
consecutive; only the oldest can have been delivered, and all before it have been. -/
structure QueueInv (q : Queue α) (l : List (α × RawDataBundle)) : Prop where
  nodup : (l.map Prod.fst).Nodup
  heap : q.heap = ofChain l
  rdbEnd : q.rdbEnd = first l
  rdbStart : q.rdbStart = last l
  seqs : l.map (fun x => x.2.seq) = List.range' q.freed.length l.length
  inserted : q.inserted = q.freed.length + l.length
  freed : q.freed = List.range q.freed.length
  unread : ∀ x ∈ l.tail, x.2.read = false
  delivered : q.delivered = List.range (q.freed.length + headDone q.pc l)
  place : Place l q.pc
  fault : q.fault = false

theorem queueInv_empty : QueueInv (Queue.empty : Queue α) [] where
  nodup := List.nodup_nil
  heap := rfl
  rdbEnd := rfl
  rdbStart := rfl
  seqs := rfl
  inserted := rfl
  freed := rfl
  unread := by simp
  delivered := rfl
  place := trivial
  fault := rfl

/-- The oldest bundle is allocated. -/
theorem deref_head {q : Queue α} {x : α × RawDataBundle} {l : List (α × RawDataBundle)}
    (h : q.heap = ofChain (x :: l)) (f : α → Node α RawDataBundle → Queue α) :
    q.deref (some x.1) f = f x.1 ⟨first l, x.2⟩ := by
  have hload : q.load (some x.1) = some (x.1, ⟨first l, x.2⟩) := by
    rw [Queue.load, Option.bind_some, h, ofChain_head]
    rfl
  rw [Queue.deref, hload]

/-- The number of the oldest bundle is the number of those freed. -/
theorem seq_head {q : Queue α} {x : α × RawDataBundle} {l : List (α × RawDataBundle)}
    (h : QueueInv q (x :: l)) : x.2.seq = q.freed.length := by
  have hseqs := h.seqs
  rw [List.map_cons, List.length_cons, List.range'_succ] at hseqs
  exact (List.cons.inj hseqs).1

/-! ## Insertions -/

omit [DecidableEq α] in
theorem place_append {l : List (α × RawDataBundle)} {pc : ReaderPc α} (h : Place l pc)
    (x : α × RawDataBundle) : Place (l ++ [x]) pc := by
  cases pc with
  | begin => trivial
  | test rdb | testAnchor rdb =>
    obtain ⟨y, l', rfl, rfl⟩ := h
    exact ⟨y, l' ++ [x], rfl, rfl⟩
  | testRead rdb =>
    obtain ⟨y, z, l', rfl, rfl⟩ := h
    exact ⟨y, z, l' ++ [x], rfl, rfl⟩
  | advance rdb =>
    obtain ⟨y, z, l', rfl, rfl, hread⟩ := h
    exact ⟨y, z, l' ++ [x], rfl, rfl, hread⟩
  | unlink tofree rdb =>
    obtain ⟨y, z, l', rfl, rfl, rfl, hread⟩ := h
    exact ⟨y, z, l' ++ [x], rfl, rfl, rfl, hread⟩
  | deliver rdb | mark rdb =>
    obtain ⟨y, l', rfl, rfl, hread⟩ := h
    exact ⟨y, l' ++ [x], rfl, rfl, hread⟩

/-- An insertion links the new bundle behind the newest. -/
theorem insert_eq {q : Queue α} {l : List (α × RawDataBundle)} (h : QueueInv q l) {rdb : α}
    (hnew : q.heap rdb = none) :
    insertRdbInList q rdb = { q with
      heap := ofChain (l ++ [(rdb, ⟨q.inserted, false⟩)]), rdbStart := some rdb
      rdbEnd := first (l ++ [(rdb, ⟨q.inserted, false⟩)]), inserted := q.inserted + 1 } := by
  have hnotin : rdb ∉ l.map Prod.fst := notMem_of_ofChain (h.heap ▸ hnew)
  rcases List.eq_nil_or_concat l with rfl | ⟨l', x, rfl⟩
  · have hend : q.rdbEnd = none := h.rdbEnd
    have hstart : q.rdbStart = none := h.rdbStart
    simp only [insertRdbInList, hstart, hend, h.heap]
    rfl
  · have hstart : q.rdbStart = some x.1 := by rw [h.rdbStart, List.concat_eq_append, last_append]
    rw [List.concat_eq_append] at h hnotin ⊢
    have hne : x.1 ≠ rdb := fun heq => hnotin (by simp [heq])
    have hlast : ofChain (l' ++ [x]) x.1 = some ⟨none, x.2⟩ := ofChain_last h.nodup
    obtain ⟨e, hend⟩ : ∃ e, q.rdbEnd = some e := by
      rw [h.rdbEnd]
      cases l' with
      | nil => exact ⟨_, rfl⟩
      | cons y l' => exact ⟨_, rfl⟩
    have hfirst : first (l' ++ [x] ++ [(rdb, (⟨q.inserted, false⟩ : RawDataBundle))]) = some e := by
      rw [first_append _ _ (by simp), ← h.rdbEnd, hend]
    have happend := ofChain_append (v := (⟨q.inserted, false⟩ : RawDataBundle)) h.nodup hnotin
    rw [Function.update_comm hne] at happend
    simp only [insertRdbInList, hstart, hend, h.heap, Queue.deref, Queue.load, Option.bind_some,
      Function.update_of_ne hne, hlast, Option.map_some, hfirst, happend]

theorem queueInv_insert {q : Queue α} {l : List (α × RawDataBundle)} (h : QueueInv q l) {rdb : α}
    (hnew : q.heap rdb = none) :
    QueueInv (insertRdbInList q rdb) (l ++ [(rdb, ⟨q.inserted, false⟩)]) := by
  have hnotin : rdb ∉ l.map Prod.fst := notMem_of_ofChain (h.heap ▸ hnew)
  have hinserted := h.inserted
  rw [insert_eq h hnew]
  refine ⟨?_, rfl, rfl, ?_, ?_, ?_, h.freed, ?_, ?_, place_append h.place _, h.fault⟩
  · rw [List.map_append, List.map_singleton, List.nodup_append_comm]
    exact List.nodup_cons.mpr ⟨hnotin, h.nodup⟩
  · rw [last_append]
  · rw [List.map_append, h.seqs, List.length_append, List.length_singleton, List.range'_concat,
      List.map_singleton, hinserted]
    simp
  · rw [List.length_append, List.length_singleton]
    show q.inserted + 1 = q.freed.length + (l.length + 1)
    omega
  · intro x hx
    cases l with
    | nil => exact absurd hx List.not_mem_nil
    | cons y l =>
      rw [List.cons_append, List.tail_cons, List.mem_append, List.mem_singleton] at hx
      rcases hx with hx | rfl
      · exact h.unread x hx
      · rfl
  · have hdone : headDone q.pc (l ++ [(rdb, ⟨q.inserted, false⟩)]) = headDone q.pc l := by
      cases l with
      | nil =>
        -- On an empty queue the reader is at the beginning.
        have hplace := h.place
        cases hpc : q.pc with
        | mark r =>
          rw [hpc] at hplace
          obtain ⟨x, l', hnil, -⟩ := hplace
          cases hnil
        | _ => rfl
      | cons y l => rfl
    rw [hdone]
    exact h.delivered

/-! ## The reader -/

/-- A statement that changes nothing but where the reader is. -/
theorem queueInv_pc {q : Queue α} {l : List (α × RawDataBundle)} (h : QueueInv q l)
    {pc : ReaderPc α} (hplace : Place l pc) (hmark : pc.marking = q.pc.marking) :
    QueueInv { q with pc := pc } l := by
  refine ⟨h.nodup, h.heap, h.rdbEnd, h.rdbStart, h.seqs, h.inserted, h.freed, h.unread, ?_, hplace,
    h.fault⟩
  have hdone : headDone pc l = headDone q.pc l := by
    cases l with
    | nil => rfl
    | cons x l => rw [headDone, headDone, hmark]
  show q.delivered = List.range (q.freed.length + headDone pc l)
  rw [hdone]
  exact h.delivered

/-- The oldest bundle has been delivered and is not the only one: it is freed. -/
theorem queueInv_unlink {q : Queue α} {x y : α × RawDataBundle} {l : List (α × RawDataBundle)}
    (h : QueueInv q (x :: y :: l)) (hread : x.2.read = true) :
    QueueInv { q with
      rdbEnd := some y.1, heap := Function.update q.heap x.1 none, pc := .test (some y.1)
      freed := q.freed ++ [x.2.seq] } (y :: l) := by
  have hnodup := h.nodup
  rw [List.map_cons, List.nodup_cons] at hnodup
  have hunread : ∀ z ∈ y :: l, z.2.read = false := h.unread
  have hseqs := h.seqs
  rw [List.map_cons, List.length_cons, List.range'_succ] at hseqs
  have hlength : (q.freed ++ [x.2.seq]).length = q.freed.length + 1 := by simp
  refine ⟨hnodup.2, ?_, rfl, ?_, ?_, ?_, ?_, fun z hz => hunread z (List.mem_cons_of_mem _ hz), ?_,
    ⟨y, l, rfl, rfl⟩, h.fault⟩
  · rw [h.heap]
    exact ofChain_free_head hnodup.1
  · exact h.rdbStart.trans (last_cons_cons x y l)
  · rw [hlength]
    exact (List.cons.inj hseqs).2
  · rw [hlength]
    have hinserted := h.inserted
    rw [List.length_cons] at hinserted
    show q.inserted = _
    omega
  · rw [hlength, List.range_succ, ← h.freed, seq_head h]
  · have hdelivered := h.delivered
    rw [headDone, hread, Bool.true_or, if_pos rfl] at hdelivered
    have hy : y.2.read = false := hunread y List.mem_cons_self
    rw [hlength, headDone, hy]
    exact hdelivered

/-- The oldest bundle is copied. -/
theorem queueInv_deliver {q : Queue α} {x : α × RawDataBundle} {l : List (α × RawDataBundle)}
    (h : QueueInv q (x :: l)) (hread : x.2.read = false) (hpc : q.pc.marking = false) :
    QueueInv { q with pc := .mark (some x.1), delivered := q.delivered ++ [x.2.seq] } (x :: l) := by
  refine ⟨h.nodup, h.heap, h.rdbEnd, h.rdbStart, h.seqs, h.inserted, h.freed, h.unread, ?_,
    ⟨x, l, rfl, rfl, hread⟩, h.fault⟩
  have hdelivered := h.delivered
  rw [headDone, hread, hpc] at hdelivered
  show q.delivered ++ [x.2.seq] = List.range (q.freed.length + headDone (.mark (some x.1)) (x :: l))
  rw [hdelivered, seq_head h, headDone, hread]
  exact (List.range_succ).symm

/-- The oldest bundle is marked as read. -/
theorem queueInv_mark {q : Queue α} {x : α × RawDataBundle} {l : List (α × RawDataBundle)}
    (h : QueueInv q (x :: l)) (hpc : q.pc.marking = true) :
    QueueInv { q with
      pc := .begin
      heap := Function.update q.heap x.1 (some ⟨first l, { x.2 with read := true }⟩) }
      ((x.1, { x.2 with read := true }) :: l) := by
  refine ⟨h.nodup, ?_, h.rdbEnd, ?_, h.seqs, h.inserted, h.freed, h.unread, ?_, trivial, h.fault⟩
  · rw [h.heap]
    exact ofChain_set_head x.1 x.2 _ l
  · have hstart := h.rdbStart
    cases l with
    | nil => exact hstart
    | cons y l => exact hstart.trans (last_cons_cons x y l)
  · have hdelivered := h.delivered
    rw [headDone, hpc, Bool.or_true] at hdelivered
    exact hdelivered

/-- Whether the oldest bundle is marked as read. -/
def headRead : List (α × RawDataBundle) → Bool
  | [] => false
  | x :: _ => x.2.read

/-- The statements of the reader up to the next delivery, if a bundle waits for it. -/
def rank (l : List (α × RawDataBundle)) : ReaderPc α → Nat
  | .deliver _ => 1
  | .testAnchor _ => if headRead l then 10 else 2
  | .testRead _ => if headRead l then 7 else 3
  | .test _ => if headRead l then 8 else 4
  | .unlink _ _ => 5
  | .advance _ => 6
  | .begin => if headRead l then 9 else 5
  | .mark _ => 10

/-- A statement that delivers nothing leaves less to do, if a bundle waits. -/
def Progress (q : Queue α) (l : List (α × RawDataBundle)) (q' : Queue α)
    (l' : List (α × RawDataBundle)) : Prop :=
  (q'.delivered = q.delivered ∧ (headDone q.pc l < l.length → rank l' q'.pc < rank l q.pc)) ∨
  (q'.delivered.length = q.delivered.length + 1 ∧ rank l' q'.pc ≤ 10)

/-- One statement of the reader. -/
theorem queueInv_reader {q : Queue α} {l : List (α × RawDataBundle)} (h : QueueInv q l) :
    ∃ l', QueueInv (readerStep q) l' ∧ Progress q l (readerStep q) l' := by
  have hplace := h.place
  unfold readerStep
  cases hpc : q.pc with
  | begin =>
    simp only
    split
    · rename_i hend
      cases l with
      | nil => exact ⟨[], h, .inl ⟨rfl, fun hlt => absurd hlt (Nat.lt_irrefl _)⟩⟩
      | cons x l => exact absurd (hend.symm.trans h.rdbEnd) (Option.some_ne_none x.1).symm
    · rename_i a hend
      cases l with
      | nil => exact absurd (hend.symm.trans h.rdbEnd) (Option.some_ne_none a)
      | cons x l =>
        obtain rfl := Option.some.inj (hend.symm.trans h.rdbEnd)
        refine ⟨_, queueInv_pc h ⟨x, l, rfl, rfl⟩ (by rw [hpc]; rfl), .inl ⟨rfl, fun _ => ?_⟩⟩
        rw [hpc]
        simp only [rank]
        split <;> omega
  | test rdb =>
    rw [hpc] at hplace
    obtain ⟨x, l, rfl, rfl⟩ := hplace
    simp only
    split
    · rename_i hlast
      refine ⟨_, queueInv_pc h ⟨x, l, rfl, rfl⟩ (by rw [hpc]; rfl), .inl ⟨rfl, fun hlt => ?_⟩⟩
      -- A bundle waits behind the oldest, which is the newest: so it is the oldest.
      have hunread : x.2.read = false := by
        cases l with
        | nil =>
          rw [headDone, List.length_singleton, Nat.lt_one_iff] at hlt
          by_contra hread
          rw [Bool.not_eq_false] at hread
          rw [hread] at hlt
          cases hlt
        | cons y l =>
          have hmem : x.1 ∈ (y :: l).map Prod.fst :=
            last_mem ((last_cons_cons x y l).symm.trans (h.rdbStart.symm.trans hlast.symm))
          exact absurd hmem (List.nodup_cons.mp h.nodup).1
      rw [hpc]
      simp only [rank, headRead, hunread]
      decide
    · rename_i hne
      -- The oldest is not the newest, so there is another one.
      cases l with
      | nil => exact absurd h.rdbStart.symm hne
      | cons y l =>
        refine ⟨_, queueInv_pc h ⟨x, y, l, rfl, rfl⟩ (by rw [hpc]; rfl), .inl ⟨rfl, fun _ => ?_⟩⟩
        rw [hpc]
        simp only [rank]
        split <;> omega
  | testRead rdb =>
    rw [hpc] at hplace
    obtain ⟨x, y, l, rfl, rfl⟩ := hplace
    simp only [deref_head h.heap]
    split
    · rename_i hread
      refine ⟨_, queueInv_pc h ⟨x, y, l, rfl, rfl, hread⟩ (by rw [hpc]; rfl),
        .inl ⟨rfl, fun _ => ?_⟩⟩
      rw [hpc]
      simp only [rank, headRead, hread]
      decide
    · rename_i hread
      refine ⟨_, queueInv_pc h ⟨x, y :: l, rfl, rfl⟩ (by rw [hpc]; rfl), .inl ⟨rfl, fun _ => ?_⟩⟩
      rw [hpc]
      simp only [rank, headRead, hread]
      decide
  | advance rdb =>
    rw [hpc] at hplace
    obtain ⟨x, y, l, rfl, rfl, hread⟩ := hplace
    simp only [deref_head h.heap]
    refine ⟨_, queueInv_pc h ⟨x, y, l, rfl, rfl, rfl, hread⟩ (by rw [hpc]; rfl),
      .inl ⟨rfl, fun _ => ?_⟩⟩
    rw [hpc]
    simp only [rank]
    decide
  | unlink tofree rdb =>
    rw [hpc] at hplace
    obtain ⟨x, y, l, rfl, rfl, rfl, hread⟩ := hplace
    simp only [deref_head h.heap]
    have hunread : y.2.read = false := h.unread y List.mem_cons_self
    refine ⟨_, queueInv_unlink h hread, .inl ⟨rfl, fun _ => ?_⟩⟩
    rw [hpc]
    simp only [rank, headRead, hunread]
    decide
  | testAnchor rdb =>
    rw [hpc] at hplace
    obtain ⟨x, l, rfl, rfl⟩ := hplace
    simp only [deref_head h.heap]
    split
    · rename_i hread
      refine ⟨_, queueInv_pc h trivial (by rw [hpc]; rfl), .inl ⟨rfl, fun _ => ?_⟩⟩
      rw [hpc]
      simp only [rank, headRead, hread]
      decide
    · rename_i hread
      refine ⟨_, queueInv_pc h ⟨x, l, rfl, rfl, Bool.not_eq_true _ ▸ hread⟩ (by rw [hpc]; rfl),
        .inl ⟨rfl, fun _ => ?_⟩⟩
      rw [hpc]
      simp only [rank, headRead, hread]
      decide
  | deliver rdb =>
    rw [hpc] at hplace
    obtain ⟨x, l, rfl, rfl, hread⟩ := hplace
    simp only [deref_head h.heap]
    refine ⟨_, queueInv_deliver h hread (by rw [hpc]; rfl), .inr ⟨?_, ?_⟩⟩
    · exact List.length_append
    · simp only [rank]
      omega
  | mark rdb =>
    rw [hpc] at hplace
    obtain ⟨x, l, rfl, rfl, hread⟩ := hplace
    simp only [deref_head h.heap]
    refine ⟨_, queueInv_mark h (by rw [hpc]; rfl), .inl ⟨rfl, fun _ => ?_⟩⟩
    rw [hpc]
    simp only [rank, headRead]
    decide

theorem queueInv_step {q : Queue α} (h : ∃ l, QueueInv q l) (act : QueueAct α) :
    ∃ l, QueueInv (queueStep q act) l := by
  obtain ⟨l, h⟩ := h
  cases act with
  | insert rdb =>
    simp only [queueStep]
    split
    · exact ⟨l, h⟩
    · rename_i hnew
      exact ⟨_, queueInv_insert h (by simpa using hnew)⟩
  | read =>
    obtain ⟨l', hl', -⟩ := queueInv_reader h
    exact ⟨l', hl'⟩

theorem queueInv_run_from {q : Queue α} (h : ∃ l, QueueInv q l) (acts : List (QueueAct α)) :
    ∃ l, QueueInv (runSteps queueStep q acts) l :=
  runSteps_inv (C := fun _ _ => True) (I := fun q => ∃ l, QueueInv q l)
    (fun _ act h _ => queueInv_step h act) acts q h (stepsMeet_true acts q)

theorem queueInv_run (acts : List (QueueAct α)) :
    ∃ l, QueueInv (runSteps queueStep (Queue.empty : Queue α) acts) l :=
  queueInv_run_from ⟨[], queueInv_empty⟩ acts

/-! ## Delivery -/

omit [DecidableEq α] in
theorem rank_le (l : List (α × RawDataBundle)) (pc : ReaderPc α) : rank l pc ≤ 10 := by
  cases pc <;> simp only [rank] <;> (try split) <;> omega

theorem length_delivered {q : Queue α} {l : List (α × RawDataBundle)} (h : QueueInv q l) :
    q.delivered.length = q.freed.length + headDone q.pc l := by
  rw [h.delivered, List.length_range]

omit [DecidableEq α] in
theorem headDone_le (pc : ReaderPc α) (l : List (α × RawDataBundle)) :
    headDone pc l ≤ l.length := by
  cases l with
  | nil => exact Nat.le_refl _
  | cons x l =>
    rw [headDone, List.length_cons]
    split <;> omega

/-- Of the bundles in the list only the oldest can have been delivered. -/
theorem delivered_in_list {q : Queue α} {l : List (α × RawDataBundle)} (h : QueueInv q l) :
    (l.filter fun x => decide (x.2.seq ∈ q.delivered)).length ≤ 1 := by
  cases l with
  | nil => exact Nat.zero_le _
  | cons x l =>
    have hseqs := h.seqs
    rw [List.map_cons, List.length_cons, List.range'_succ] at hseqs
    have htail : l.filter (fun y => decide (y.2.seq ∈ q.delivered)) = [] := by
      rw [List.filter_eq_nil_iff]
      intro y hy hmem
      -- The numbers behind the oldest start after those delivered.
      have hrange : y.2.seq ∈ List.range' (q.freed.length + 1) l.length :=
        (List.cons.inj hseqs).2 ▸ List.mem_map_of_mem (f := fun z => z.2.seq) hy
      rw [List.mem_range'_1] at hrange
      rw [decide_eq_true_iff, h.delivered, List.mem_range] at hmem
      have hone : headDone q.pc (x :: l) ≤ 1 := by
        rw [headDone]
        split <;> omega
      omega
    rw [List.filter_cons, htail]
    split <;> simp

omit [DecidableEq α] in
/-- An insertion is nothing to the reader. -/
theorem rank_insert {q : Queue α} {l : List (α × RawDataBundle)} (hne : l ≠ [])
    (x : α × RawDataBundle) : rank (l ++ [x]) q.pc = rank l q.pc := by
  cases l with
  | nil => exact absurd rfl hne
  | cons y l => cases q.pc <;> rfl

/-- A bundle that has been inserted is delivered within a bounded number of statements of the
reader, whatever is inserted in between. -/
theorem delivered_of_reads (i : Nat) (acts : List (QueueAct α)) :
    ∀ (q : Queue α) (l : List (α × RawDataBundle)), QueueInv q l → i < q.inserted →
      (q.delivered.length ≤ i →
        rank l q.pc + 11 * (i - q.delivered.length) ≤ acts.count .read) →
      i < (runSteps queueStep q acts).delivered.length := by
  -- on the schedule; the rank counts the reads the bundle still has to wait for
  induction acts with
  | nil =>
    intro q l h hi hcount
    by_contra hle
    have hrank := hcount (Nat.not_lt.mp hle)
    have hpos : 0 < rank l q.pc := by
      cases q.pc <;> simp only [rank] <;> (try split) <;> omega
    rw [List.count_nil] at hrank
    omega
  | cons act acts ih =>
    intro q l h hi hcount
    rw [runSteps]
    have hlength := length_delivered h
    have hinserted := h.inserted
    cases act with
    | insert rdb =>
      rw [List.count_cons_of_ne (by simp)] at hcount
      -- an insert of a bundle in use changes nothing
      by_cases hused : (q.heap rdb).isSome = true
      · rw [queueStep, if_pos hused]
        exact ih q l h hi hcount
      · rw [queueStep, if_neg hused]
        have hnew : q.heap rdb = none := by simpa using hused
        have hstep := insert_eq h hnew
        refine ih _ _ (queueInv_insert h hnew) ?_ ?_
        · rw [hstep]
          exact Nat.lt_succ_of_lt hi
        · rw [hstep]
          intro hle
          have hle' : q.delivered.length ≤ i := hle
          have hne : l ≠ [] := by
            rintro rfl
            rw [List.length_nil] at hinserted
            omega
          show rank _ q.pc + 11 * (i - q.delivered.length) ≤ _
          rw [rank_insert hne]
          exact hcount hle'
    | read =>
      rw [List.count_cons_self] at hcount
      obtain ⟨l', hl', hprogress⟩ := queueInv_reader h
      have hkeep : (readerStep q).inserted = q.inserted := inserted_readerStep q
      refine ih _ l' hl' (by rw [queueStep, hkeep]; exact hi) ?_
      intro hle
      have hle' : (readerStep q).delivered.length ≤ i := hle
      show rank l' (readerStep q).pc + 11 * (i - (readerStep q).delivered.length) ≤ _
      -- a read delivers one, or gets closer to it
      rcases hprogress with ⟨hsame, hless⟩ | ⟨hmore, hrank⟩
      · rw [hsame] at hle' ⊢
        have hrank := hless (by omega)
        have hbefore := hcount hle'
        omega
      · have hbefore := hcount (by omega)
        omega

/-- For every interleaving: no memory is used after it is freed; the bundles are delivered in the
order of capture, each once; only delivered ones are freed; the list holds one delivered bundle at
most; and every bundle inserted so far is delivered once the reader has run long enough, however
the insertions go on. -/
theorem bundles_delivered_once (acts : List (QueueAct α)) :
    (runSteps queueStep (Queue.empty : Queue α) acts).fault = false ∧
    (∃ n ≤ (runSteps queueStep (Queue.empty : Queue α) acts).inserted,
      (runSteps queueStep (Queue.empty : Queue α) acts).delivered = List.range n) ∧
    (∀ i ∈ (runSteps queueStep (Queue.empty : Queue α) acts).freed,
      i ∈ (runSteps queueStep (Queue.empty : Queue α) acts).delivered) ∧
    (∃ l, Linked (runSteps queueStep (Queue.empty : Queue α) acts).heap
        (runSteps queueStep (Queue.empty : Queue α) acts).rdbEnd l ∧
      (l.filter fun x =>
        decide (x.2.seq ∈ (runSteps queueStep (Queue.empty :
          Queue α) acts).delivered)).length ≤ 1) ∧
    ∀ i < (runSteps queueStep (Queue.empty : Queue α) acts).inserted,
      ∀ later : List (QueueAct α), 11 * (i + 1) ≤ later.count .read →
        i ∈ (runSteps queueStep (Queue.empty : Queue α) (acts ++ later)).delivered := by
  obtain ⟨l, h⟩ := queueInv_run acts
  simp only [runSteps_append]
  generalize runSteps queueStep (Queue.empty : Queue α) acts = q at h ⊢
  have hlength := length_delivered h
  have hinserted := h.inserted
  refine ⟨h.fault, ⟨_, ?_, h.delivered⟩, ?_, ⟨l, ?_, ?_⟩, ?_⟩
  · have hdone : headDone q.pc l ≤ l.length := headDone_le q.pc l
    omega
  · intro i hi
    rw [h.freed, List.mem_range] at hi
    rw [h.delivered, List.mem_range]
    omega
  · rw [h.rdbEnd]
    exact linked_ofChain h.nodup fun a _ => by rw [h.heap]
  · exact delivered_in_list h
  · intro i hi later hcount
    have hlater : i < (runSteps queueStep q later).delivered.length := by
      refine delivered_of_reads i later q l h hi fun _ => ?_
      have hrank := rank_le l q.pc
      omega
    obtain ⟨l', h'⟩ := queueInv_run_from ⟨l, h⟩ later
    have hrange := h'.delivered
    rw [hrange, List.length_range] at hlater
    rw [hrange]
    exact List.mem_range.mpr hlater

/-- A bundle is inserted, and then the reader runs. -/
theorem bundles_delivered_once_single :
    0 ∈ (runSteps queueStep (Queue.empty : Queue Nat)
      ([.insert 5] ++ List.replicate 11 .read)).delivered :=
  (bundles_delivered_once [.insert 5]).2.2.2.2 0 (by decide) (List.replicate 11 .read) (by decide)

end RADclock.Capture
