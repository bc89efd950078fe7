import Mathlib.Data.List.Nodup
import Mathlib.Logic.Function.Basic

/-!
# Chains of nodes in a heap

A singly linked list as it lies in memory: nodes at addresses, each with the address of the next
one. `ofChain` is the heap that holds one chain and nothing else, so that what a program does to
the pointers is a change of the list.

- `Node`, `Linked`: a node, and the list that hangs from a pointer.
- `ofChain`: the heap of a list of addresses and values.
- `ofChain_append`, `ofChain_free_head`, `ofChain_set_head`: linking a node behind the last one,
  freeing the first one, writing to the first one.
-/

namespace Lib

variable {α β : Type}

/-- A node: the next one, and the value. -/
structure Node (α β : Type) where
  next : Option α
  val : β

/-- The nodes that hang from a pointer, with their values. -/
def Linked (heap : α → Option (Node α β)) : Option α → List (α × β) → Prop
  | none, [] => True
  | some a, (b, v) :: l => a = b ∧ ∃ next, heap a = some ⟨next, v⟩ ∧ Linked heap next l
  | _, _ => False

/-- The first address of a list of nodes. -/
def first (l : List (α × β)) : Option α := l.head?.map Prod.fst

/-- The last address of a list of nodes. -/
def last (l : List (α × β)) : Option α := l.getLast?.map Prod.fst

@[simp] theorem first_nil : first ([] : List (α × β)) = none := rfl

@[simp] theorem first_cons (x : α × β) (l : List (α × β)) : first (x :: l) = some x.1 := rfl

@[simp] theorem last_nil : last ([] : List (α × β)) = none := rfl

@[simp] theorem last_singleton (x : α × β) : last [x] = some x.1 := rfl

@[simp] theorem last_cons_cons (x y : α × β) (l : List (α × β)) :
    last (x :: y :: l) = last (y :: l) := by
  rw [last, last, List.getLast?_cons_cons]

@[simp] theorem last_append (l : List (α × β)) (x : α × β) : last (l ++ [x]) = some x.1 := by
  rw [last, List.getLast?_concat]
  rfl

theorem last_mem {l : List (α × β)} {a : α} (h : last l = some a) : a ∈ l.map Prod.fst := by
  obtain ⟨x, hx, rfl⟩ := Option.map_eq_some_iff.mp h
  exact List.mem_map_of_mem (List.mem_of_getLast? hx)

theorem first_append (l : List (α × β)) (x : α × β) (h : l ≠ []) : first (l ++ [x]) = first l := by
  cases l with
  | nil => exact absurd rfl h
  | cons y l => rfl

section Heap

variable [DecidableEq α]

/-- The heap that holds the nodes of the list, linked in its order. -/
def ofChain : List (α × β) → α → Option (Node α β)
  | [] => fun _ => none
  | (a, v) :: l => Function.update (ofChain l) a (some ⟨first l, v⟩)

theorem ofChain_head (a : α) (v : β) (l : List (α × β)) :
    ofChain ((a, v) :: l) a = some ⟨first l, v⟩ := Function.update_self _ _ _

theorem ofChain_of_notMem {l : List (α × β)} {a : α} (h : a ∉ l.map Prod.fst) :
    ofChain l a = none := by
  induction l with
  | nil => rfl
  | cons x l ih =>
    rw [List.map_cons, List.mem_cons, not_or] at h
    rw [ofChain, Function.update_of_ne h.1, ih h.2]

/-- Only the addresses of the list are allocated. -/
theorem notMem_of_ofChain {l : List (α × β)} {a : α} (h : ofChain l a = none) :
    a ∉ l.map Prod.fst := by
  induction l with
  | nil => exact List.not_mem_nil
  | cons x l ih =>
    have hne : a ≠ x.1 := by
      rintro rfl
      rw [ofChain_head] at h
      cases h
    rw [ofChain, Function.update_of_ne hne] at h
    rw [List.map_cons, List.mem_cons, not_or]
    exact ⟨hne, ih h⟩

/-- What hangs from the first address is the list. -/
theorem linked_ofChain {l : List (α × β)} (hnodup : (l.map Prod.fst).Nodup)
    {heap : α → Option (Node α β)} (hheap : ∀ a ∈ l.map Prod.fst, heap a = ofChain l a) :
      Linked heap (first l) l := by
  induction l with
  | nil => trivial
  | cons x l ih =>
    obtain ⟨a, v⟩ := x
    rw [List.map_cons, List.nodup_cons] at hnodup
    refine ⟨rfl, first l, ?_, ih hnodup.2 ?_⟩
    · rw [hheap a (by simp), ofChain_head]
    · intro b hb
      have hne : b ≠ a := fun h => hnodup.1 (h ▸ hb)
      rw [hheap b (List.mem_cons_of_mem _ hb), ofChain, Function.update_of_ne hne]

theorem ofChain_set_head (a : α) (v w : β) (l : List (α × β)) :
    Function.update (ofChain ((a, v) :: l)) a (some ⟨first l, w⟩) = ofChain ((a, w) :: l) :=
  Function.update_idem _ _ _

theorem ofChain_free_head {a : α} {v : β} {l : List (α × β)} (h : a ∉ l.map Prod.fst) :
    Function.update (ofChain ((a, v) :: l)) a none = ofChain l := by
  rw [ofChain, Function.update_idem, ← ofChain_of_notMem h, Function.update_eq_self]

/-- The last node has no next one. -/
theorem ofChain_last {l : List (α × β)} {x : α × β} (hnodup : ((l ++ [x]).map Prod.fst).Nodup) :
    ofChain (l ++ [x]) x.1 = some ⟨none, x.2⟩ := by
  induction l with
  | nil => exact ofChain_head x.1 x.2 []
  | cons y l ih =>
    rw [List.cons_append, List.map_cons, List.nodup_cons] at hnodup
    have hne : x.1 ≠ y.1 := fun h => hnodup.1 (by simp [h])
    rw [List.cons_append, ofChain, Function.update_of_ne hne, ih hnodup.2]

/-- Linking a new node behind the last one. -/
theorem ofChain_append {l : List (α × β)} {x : α × β} {a : α} {v : β}
    (hnodup : ((l ++ [x]).map Prod.fst).Nodup) (hnew : a ∉ (l ++ [x]).map Prod.fst) :
    Function.update (Function.update (ofChain (l ++ [x])) x.1 (some ⟨some a, x.2⟩)) a
      (some ⟨none, v⟩) = ofChain (l ++ [x] ++ [(a, v)]) := by
  induction l with
  | nil =>
    have hne : x.1 ≠ a := fun h => hnew (by simp [h])
    show Function.update (Function.update (Function.update _ x.1 _) x.1 _) a _ =
      Function.update (Function.update _ a _) x.1 _
    rw [Function.update_idem, Function.update_comm hne]
    rfl
  | cons y l ih =>
    obtain ⟨b, w⟩ := y
    rw [List.cons_append, List.map_cons, List.nodup_cons] at hnodup
    rw [List.cons_append, List.map_cons, List.mem_cons, not_or] at hnew
    have hbx : b ≠ x.1 := fun h => hnodup.1 (by simp [h])
    have hba : b ≠ a := fun h => hnew.1 h.symm
    have hfirst : first (l ++ [x] ++ [(a, v)]) = first (l ++ [x]) :=
      first_append _ _ (List.append_ne_nil_of_right_ne_nil _ (List.cons_ne_nil _ _))
    show Function.update (Function.update (Function.update (ofChain (l ++ [x])) b
        (some ⟨first (l ++ [x]), w⟩)) x.1 _) a _ =
      Function.update (ofChain (l ++ [x] ++ [(a, v)])) b (some ⟨first (l ++ [x] ++ [(a, v)]), w⟩)
    rw [Function.update_comm hbx, Function.update_comm hba, ih hnodup.2 hnew.2, hfirst]

end Heap

end Lib
