import RADclock.Lib.Allocate
import RADclock.Lib.Scan

/-!
# Server IDs of a replay (`pthread_dataproc.c`)

A daemon that runs dead has no server addresses of its own. It learns them from its input: while a
lookup walks the clients, a client that has no address yet is given the one looked up.

- `serverIPtoID`: the code, with `inet_aton` and `inet_ntoa` as parameters.
- `slots`: the clients when the addresses of a table have been assigned.
- `serverIPtoID_slots`: a call on them is `allocate` on the table.
- `serverIDs_allocated`: what any sequence of addresses gets.
-/

namespace RADclock

open Lib

/-- `radclock_runmode_t`. -/
inductive RunMode where
  | notset
  | dead
  | live
deriving DecidableEq, Repr

section

variable (inetAton : Text → Option UInt32) (inetNtoa : UInt32 → Text)

/-- The loop of `serverIPtoID` over the addresses of the clients from `s` on. -/
def serverLoop (runMode : RunMode) (serverIpaddr : Text) : Int → List UInt32 → List UInt32 × Int
  | _, [] => ([], -1)
  | s, addr :: clients =>
    let addr :=
      -- an address that fails to translate leaves the client without one
      if runMode = .dead ∧ addr = 0 then (inetAton serverIpaddr).getD addr else addr
    if serverIpaddr = inetNtoa addr then (addr :: clients, s)
    else
      let rest := serverLoop runMode serverIpaddr (s + 1) clients
      (addr :: rest.1, rest.2)

/-- `serverIPtoID`: the addresses of the clients after it, and the ID. -/
def serverIPtoID (runMode : RunMode) (clients : List UInt32) (serverIpaddr : Text) :
    List UInt32 × Int :=
  serverLoop inetAton inetNtoa runMode serverIpaddr 0 clients

/-- The calls of a dead run for the addresses `as`, each with the ID it returns. The clients start
without addresses. -/
def serverIDs (nservers : Nat) (as : List UInt32) : List (UInt32 × Int) :=
  (runOut (fun clients a =>
    let r := serverIPtoID inetAton inetNtoa .dead clients (inetNtoa a)
    (r.1, (a, r.2))) (List.replicate nservers 0) as).2

end

/-! ## One call -/

/-- The clients when the addresses of the table have been assigned. -/
def slots (nservers : Nat) (table : List UInt32) : List UInt32 :=
  table ++ List.replicate (nservers - table.length) 0

/-- A number as an ID. -/
def toID : Option Nat → Int
  | some s => s
  | none => -1

section Call

variable {inetAton : Text → Option UInt32} {inetNtoa : UInt32 → Text} {nservers : Nat}
  {table rest : List UInt32} {a : UInt32} {s : Int}

/-- Addresses that translate are told apart by their texts. -/
theorem inetNtoa_inj {a b : UInt32} (ha : inetAton (inetNtoa a) = some a)
    (hb : inetAton (inetNtoa b) = some b) : inetNtoa a = inetNtoa b ↔ a = b := by
  refine ⟨fun h => ?_, fun h => h ▸ rfl⟩
  rw [h, hb] at ha
  exact (Option.some.inj ha).symm

/-- The loop passes over assigned addresses up to the one looked up. -/
theorem serverLoop_table (hnonzero : ∀ b ∈ table, b ≠ 0)
    (hntoa : ∀ b ∈ table, inetNtoa a = inetNtoa b ↔ a = b) :
    serverLoop inetAton inetNtoa .dead (inetNtoa a) s (table ++ rest) =
      if a ∈ table then (table ++ rest, s + table.idxOf a)
      else
        let r := serverLoop inetAton inetNtoa .dead (inetNtoa a) (s + table.length) rest
        (table ++ r.1, r.2) := by
  induction table generalizing s with
  | nil => simp
  | cons b table ih =>
    have hb : ¬ (RunMode.dead = .dead ∧ b = 0) := fun h => hnonzero b List.mem_cons_self h.2
    rw [List.cons_append, serverLoop, if_neg hb]
    by_cases heq : a = b
    · subst heq
      simp
    · have hne : ¬ inetNtoa a = inetNtoa b := mt (hntoa b List.mem_cons_self).mp heq
      rw [if_neg hne, ih (fun c hc => hnonzero c (List.mem_cons_of_mem _ hc))
        fun c hc => hntoa c (List.mem_cons_of_mem _ hc)]
      by_cases hmem : a ∈ table
      · rw [if_pos hmem, if_pos (List.mem_cons_of_mem _ hmem), List.idxOf_cons_ne _ (Ne.symm heq)]
        simp only [Prod.mk.injEq, true_and]
        push_cast
        omega
      · rw [if_neg hmem, if_neg (by simp [heq, hmem])]
        have hs : s + 1 + (table.length : Int) = s + ((b :: table).length : Nat) := by
          rw [List.length_cons]
          push_cast
          omega
        rw [hs]
        rfl

/-- The first client without an address is given the one looked up. -/
theorem serverLoop_zeros (ha : inetAton (inetNtoa a) = some a) (k : Nat) :
    serverLoop inetAton inetNtoa .dead (inetNtoa a) s (List.replicate k 0) =
      if 0 < k then (a :: List.replicate (k - 1) 0, s) else ([], -1) := by
  cases k with
  | zero => rfl
  | succ k => simp [List.replicate_succ, serverLoop, ha]

theorem serverIPtoID_slots (hlen : table.length ≤ nservers) (hnonzero : ∀ b ∈ table, b ≠ 0)
    (ha : inetAton (inetNtoa a) = some a) (htable : ∀ b ∈ table, inetAton (inetNtoa b) = some b) :
    serverIPtoID inetAton inetNtoa .dead (slots nservers table) (inetNtoa a) =
      (slots nservers (allocate nservers table a).1, toID (allocate nservers table a).2) := by
  unfold serverIPtoID slots
  rw [serverLoop_table hnonzero fun b hb => inetNtoa_inj ha (htable b hb), serverLoop_zeros ha]
  unfold allocate
  by_cases hmem : a ∈ table
  · simp [hmem, toID]
  · rw [if_neg hmem, if_neg hmem]
    by_cases hroom : table.length < nservers
    · rw [if_pos (by omega), if_pos hroom]
      simp only [toID, List.length_append, List.length_singleton, List.append_assoc,
        List.singleton_append, zero_add, Nat.sub_sub]
    · rw [if_neg (by omega), if_neg hroom]
      simp [toID, show nservers - table.length = 0 by omega]

end Call

/-! ## Any sequence of calls -/

section Calls

variable {inetAton : Text → Option UInt32} {inetNtoa : UInt32 → Text} {nservers : Nat}
  {as : List UInt32}

/-- An address that clients can be told apart by. -/
def Proper (inetAton : Text → Option UInt32) (inetNtoa : UInt32 → Text) (a : UInt32) : Prop :=
  a ≠ 0 ∧ inetAton (inetNtoa a) = some a

/-- The calls return the numbers of `allocate`. -/
theorem serverIDs_eq (has : ∀ a ∈ as, Proper inetAton inetNtoa a) :
    serverIDs inetAton inetNtoa nservers as =
      (allocateRun nservers as).2.map fun x => (x.1, toID x.2) := by
  have hsim : serverIDs inetAton inetNtoa nservers as =
      (runOut (fun table a => ((allocate nservers table a).1,
        (a, toID (allocate nservers table a).2))) [] as).2 := by
    refine (runOut_sim (R := fun rest clients table => clients = slots nservers table ∧
      table.length ≤ nservers ∧ ∀ a, a ∈ table ∨ a ∈ rest → Proper inetAton inetNtoa a)
      ?_ as _ [] ⟨rfl, Nat.zero_le _, fun a ha => has a (ha.resolve_left List.not_mem_nil)⟩).1
    rintro a rest _ table ⟨rfl, hlen, hproper⟩
    have ha := hproper a (Or.inr List.mem_cons_self)
    have hcall := serverIPtoID_slots hlen (fun b hb => (hproper b (Or.inl hb)).1) ha.2
      fun b hb => (hproper b (Or.inl hb)).2
    dsimp only
    rw [hcall]
    refine ⟨rfl, rfl, allocate_length_le hlen a, fun b hb => ?_⟩
    rcases hb with hb | hb
    · rcases mem_allocate hb with hb | rfl
      · exact hproper b (Or.inl hb)
      · exact ha
    · exact hproper b (Or.inr (List.mem_cons_of_mem _ hb))
  rw [hsim]
  exact congrArg Prod.snd (runOut_map (fun table a => ((allocate nservers table a).1,
    (a, (allocate nservers table a).2))) (fun x => (x.1, toID x.2)) as [])

theorem toID_nonneg {o : Option Nat} : 0 ≤ toID o ↔ o ≠ none := by
  cases o with
  | none => exact iff_of_false (by decide) fun h => h rfl
  | some s => exact iff_of_true (Int.natCast_nonneg s) (Option.some_ne_none s)

theorem toID_inj {o o' : Option Nat} : toID o = toID o' ↔ o = o' := by
  cases o <;> cases o' <;> simp [toID]

theorem toID_eq_neg_one {o : Option Nat} : toID o = -1 ↔ o = none := @toID_inj o none

/-- The addresses to which the calls have given an ID. -/
def assigned (calls : List (UInt32 × Int)) : Finset UInt32 :=
  ((calls.filter fun x => 0 ≤ x.2).map Prod.fst).toFinset

theorem assigned_map (calls : List (UInt32 × Option Nat)) :
    assigned (calls.map fun x => (x.1, toID x.2)) = withNumber calls := by
  ext a
  simp only [assigned, withNumber, List.mem_toFinset, List.mem_map, List.mem_filter,
    Option.isSome_iff_ne_none, decide_eq_true_eq]
  constructor
  · rintro ⟨_, ⟨⟨x, hx, rfl⟩, hid⟩, rfl⟩
    exact ⟨x, ⟨hx, toID_nonneg.mp hid⟩, rfl⟩
  · rintro ⟨x, ⟨hx, hsome⟩, rfl⟩
    exact ⟨_, ⟨⟨x, hx, rfl⟩, toID_nonneg.mpr hsome⟩, rfl⟩

/-- In a dead run, two addresses get the same ID if and only if they are equal, IDs count the
addresses that appeared before, and there is none for a new address when all clients have one. -/
theorem serverIDs_allocated (nservers : Nat) (as : List UInt32)
    (has : ∀ a ∈ as, Proper inetAton inetNtoa a) :
    let calls := serverIDs inetAton inetNtoa nservers as
    calls.map Prod.fst = as ∧
    (∀ x ∈ calls, ∀ y ∈ calls, 0 ≤ x.2 → (x.2 = y.2 ↔ x.1 = y.1)) ∧
    (∀ x ∈ calls, 0 ≤ x.2 → x.2 = (as.take (as.idxOf x.1)).toFinset.card ∧ x.2 < nservers) ∧
    ∀ before x after, calls = before ++ x :: after →
      (x.2 = -1 ↔ x.1 ∉ assigned before ∧ (assigned before).card = nservers) := by
  intro calls
  have hcalls : calls = (allocateRun nservers as).2.map fun x => (x.1, toID x.2) :=
    serverIDs_eq has
  rw [hcalls]
  refine ⟨?_, fun _ hx' _ hy' hid => ?_, fun _ hx' hid => ?_, fun before x after h => ?_⟩
  · rw [List.map_map]
    exact map_fst_allocateRun nservers as
  · obtain ⟨x, hx, rfl⟩ := List.mem_map.mp hx'
    obtain ⟨y, hy, rfl⟩ := List.mem_map.mp hy'
    exact toID_inj.trans (run_number_eq_iff hx hy (toID_nonneg.mp hid))
  · obtain ⟨x, hx, rfl⟩ := List.mem_map.mp hx'
    have hcard := run_number_eq_card hx (toID_nonneg.mp hid)
    have hlt := run_number_lt hx hcard
    dsimp only
    rw [hcard]
    exact ⟨rfl, Int.ofNat_lt.mpr hlt⟩
  · obtain ⟨before, rest, hrun, rfl, hrest⟩ := List.map_eq_append_iff.mp h
    obtain ⟨x, after, rfl, rfl, -⟩ := List.map_eq_cons_iff.mp hrest
    rw [assigned_map, ← run_none_iff hrun]
    exact toID_eq_neg_one

end Calls

/-- `inet_ntoa`; the first number is the lowest byte of `s_addr`. -/
def dottedQuad (a : UInt32) : Text :=
  let octet (k : Nat) : Text := Nat.toDigits 10 (a.toNat / 256 ^ k % 256)
  octet 0 ++ '.' :: octet 1 ++ '.' :: octet 2 ++ '.' :: octet 3

/-- `inet_aton` on what `inet_ntoa` gives. -/
def readQuad (text : Text) : Option UInt32 :=
  let value (digits : Text) : Nat := digits.foldl (fun n c => 10 * n + (c.toNat - '0'.toNat)) 0
  match (text.splitOn '.').map value with
  | [a, b, c, d] => some (.ofNat (a + 256 * b + 256 ^ 2 * c + 256 ^ 3 * d))
  | _ => none

/-- Two clients, and `10.0.0.1`, `10.0.0.2`, `10.0.0.1`, `10.0.0.3`. -/
theorem serverIDs_allocated_two :
    serverIDs readQuad dottedQuad 2 [0x0100000A, 0x0200000A, 0x0100000A, 0x0300000A] =
      [(0x0100000A, 0), (0x0200000A, 1), (0x0100000A, 0)] ++ [(0x0300000A, -1)] ∧
    (0x0300000A ∉ assigned [(0x0100000A, 0), (0x0200000A, 1), (0x0100000A, 0)] ∧
      (assigned [(0x0100000A, 0), (0x0200000A, 1), (0x0100000A, 0)]).card = 2) := by
  have hcalls : serverIDs readQuad dottedQuad 2 [0x0100000A, 0x0200000A, 0x0100000A, 0x0300000A] =
      [(0x0100000A, 0), (0x0200000A, 1), (0x0100000A, 0)] ++ [(0x0300000A, -1)] := by
    decide +kernel
  refine ⟨hcalls, ?_⟩
  have has : ∀ a ∈ [0x0100000A, 0x0200000A, 0x0100000A, 0x0300000A],
      Proper readQuad dottedQuad a := by
    simp only [List.forall_mem_cons, List.not_mem_nil, IsEmpty.forall_iff, implies_true,
      and_true, Proper]
    decide +kernel
  exact ((serverIDs_allocated 2 _ has).2.2.2 _ _ [] hcalls).mp rfl

end RADclock
