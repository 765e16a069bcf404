/-
  HttpProxy.Lib.LinkedQueue

  A FIFO kept as a singly linked list with a head and a tail pointer, the nodes
  living in a heap of cells.  `Repr q xs` says that the cells reachable from the
  head by `next` hold exactly `xs` and that the tail is the last of them; `push`
  and `pop` follow the pointers as C code does, and refine `xs ++ [x]` and
  `xs.tail`.
-/

import Mathlib.Logic.Function.Basic
import Mathlib.Data.List.Nodup
import Mathlib.Data.List.Perm.Subperm

namespace HttpProxy
namespace Lib

/-- A cell: the value and the address of the next cell. -/
structure Node (α : Type) where
  val : α
  next : Option Nat

/-- Head and tail pointers, the heap, and the next unused address. -/
structure LinkedQueue (α : Type) where
  head : Option Nat
  tail : Option Nat
  nodes : Nat → Option (Node α)
  fresh : Nat

namespace LinkedQueue

variable {α : Type}

def empty : LinkedQueue α := { head := none, tail := none, nodes := fun _ => none, fresh := 0 }

/-- `tail->next = p` -/
def setNext (nodes : Nat → Option (Node α)) (t p : Nat) : Nat → Option (Node α) :=
  Function.update nodes t ((nodes t).map fun n => { n with next := some p })

/-- Allocate a cell for `a` and link it behind the tail. -/
def push (q : LinkedQueue α) (a : α) : LinkedQueue α :=
  let p := q.fresh
  let nodes := Function.update q.nodes p (some { val := a, next := none })
  match q.head with
  | none => { head := some p, tail := some p, nodes, fresh := p + 1 }
  | some _ =>
      { q with
        tail := some p
        nodes := (q.tail.map fun t => setNext nodes t p).getD nodes
        fresh := p + 1 }

/-- `head = h->next; if (head == NULL) tail = NULL; free(h)` -/
def pop (q : LinkedQueue α) (h : Nat) : LinkedQueue α :=
  let head := (q.nodes h).bind (·.next)
  { q with
    head
    tail := if head.isNone then none else q.tail
    nodes := Function.update q.nodes h none }

/-- The cells from pointer `p` on, as addresses with their values, end in NULL. -/
def Seg (nodes : Nat → Option (Node α)) : Option Nat → List (Nat × α) → Prop
  | p, [] => p = none
  | p, (i, a) :: xs => p = some i ∧ ∃ nxt, nodes i = some { val := a, next := nxt } ∧
      Seg nodes nxt xs

/-- `q` holds the cells `xs`, in this order. -/
structure Repr (q : LinkedQueue α) (xs : List (Nat × α)) : Prop where
  seg : Seg q.nodes q.head xs
  nodup : (xs.map Prod.fst).Nodup
  tail : q.tail = xs.getLast?.map Prod.fst
  fresh : ∀ i ∈ xs.map Prod.fst, i < q.fresh

theorem Seg.congr {nodes nodes' : Nat → Option (Node α)} {p : Option Nat}
    {xs : List (Nat × α)} (h : Seg nodes p xs)
    (heq : ∀ i ∈ xs.map Prod.fst, nodes' i = nodes i) : Seg nodes' p xs := by
  induction xs generalizing p with
  | nil => exact h
  | cons x xs ih =>
      obtain ⟨i, a⟩ := x
      obtain ⟨hp, nxt, hn, hseg⟩ := h
      refine ⟨hp, nxt, ?_, ih hseg fun j hj => heq j (by simp [hj])⟩
      rw [heq i (by simp)]
      exact hn

/-- Linking a fresh cell behind the last one extends the segment. -/
theorem Seg.snoc {nodes : Nat → Option (Node α)} {p : Option Nat} {xs : List (Nat × α)}
    {t i : Nat} {b a : α} (h : Seg nodes p (xs ++ [(t, b)]))
    (hnd : ((xs ++ [(t, b)]).map Prod.fst).Nodup)
    (hi : nodes i = some { val := a, next := none }) (hit : i ≠ t) :
    Seg (setNext nodes t i) p (xs ++ [(t, b)] ++ [(i, a)]) := by
  induction xs generalizing p with
  | nil =>
      obtain ⟨hp, nxt, hn, -⟩ := h
      refine ⟨hp, some i, ?_, rfl, none, ?_, rfl⟩
      · simp [setNext, hn]
      · simpa [setNext, Function.update_of_ne hit] using hi
  | cons x xs ih =>
      obtain ⟨j, c⟩ := x
      obtain ⟨hp, nxt, hn, hseg⟩ := h
      simp only [List.cons_append, List.map_cons, List.nodup_cons] at hnd
      have hjt : j ≠ t := by
        rintro rfl
        exact hnd.1 (by simp)
      refine ⟨hp, nxt, ?_, ih hseg hnd.2⟩
      simpa [setNext, Function.update_of_ne hjt] using hn

@[simp] theorem repr_empty : (empty : LinkedQueue α).Repr [] :=
  ⟨rfl, List.nodup_nil, rfl, by simp⟩

/-- The head is NULL exactly when the queue holds nothing. -/
theorem Repr.head_eq_none_iff {q : LinkedQueue α} {xs : List (Nat × α)} (h : q.Repr xs) :
    q.head = none ↔ xs = [] := by
  cases xs with
  | nil => simp [show q.head = none from h.seg]
  | cons x xs => simp [h.seg.1]

/-- The tail is NULL exactly when the queue holds nothing. -/
theorem Repr.tail_eq_none_iff {q : LinkedQueue α} {xs : List (Nat × α)} (h : q.Repr xs) :
    q.tail = none ↔ xs = [] := by
  simp [h.tail]

theorem Repr.head_cons {q : LinkedQueue α} {i : Nat} {a : α} {xs : List (Nat × α)}
    (h : q.Repr ((i, a) :: xs)) :
    q.head = some i ∧ ∃ nxt, q.nodes i = some { val := a, next := nxt } :=
  ⟨h.seg.1, h.seg.2.imp fun _ hn => hn.1⟩

/-- `push` appends. -/
theorem Repr.push {q : LinkedQueue α} {xs : List (Nat × α)} (h : q.Repr xs) (a : α) :
    (q.push a).Repr (xs ++ [(q.fresh, a)]) := by
  have hfresh : ∀ i ∈ xs.map Prod.fst, i ≠ q.fresh := fun i hi => Nat.ne_of_lt (h.fresh i hi)
  have hseg : Seg (Function.update q.nodes q.fresh (some { val := a, next := none })) q.head xs :=
    h.seg.congr fun i hi => Function.update_of_ne (hfresh i hi) _ _
  have hnd : ((xs ++ [(q.fresh, a)]).map Prod.fst).Nodup := by
    rw [List.map_append, List.nodup_append]
    refine ⟨h.nodup, by simp, ?_⟩
    intro i hi j hj
    rw [List.map_singleton, List.mem_singleton] at hj
    exact hj ▸ hfresh i hi
  have hlt : ∀ i ∈ (xs ++ [(q.fresh, a)]).map Prod.fst, i < q.fresh + 1 := by
    intro i hi
    rw [List.map_append, List.mem_append] at hi
    rcases hi with hi | hi
    · exact Nat.lt_succ_of_lt (h.fresh i hi)
    · simp only [List.map_singleton, List.mem_singleton] at hi
      omega
  rcases List.eq_nil_or_concat xs with rfl | ⟨ys, ⟨t, b⟩, rfl⟩
  · have hh : q.head = none := h.seg
    simp only [LinkedQueue.push, hh]
    exact ⟨⟨rfl, none, by simp, rfl⟩, hnd, rfl, hlt⟩
  · have hh : q.head ≠ none := fun hc => by simpa using h.head_eq_none_iff.mp hc
    have ht : q.tail = some t := by simp [h.tail]
    have htf : q.fresh ≠ t := (hfresh t (by simp)).symm
    obtain ⟨p, hp⟩ := Option.ne_none_iff_exists'.mp hh
    simp only [LinkedQueue.push, hp, ht, Option.map_some, Option.getD_some]
    refine ⟨?_, hnd, by simp, hlt⟩
    rw [List.concat_eq_append] at hseg ⊢
    have hseg' := hseg.snoc (by simpa using h.nodup) (i := q.fresh) (a := a) (by simp) htf
    simpa [hp] using hseg'

/-- A cell behind a push holds the new value, or the value it held before. -/
theorem push_val {q : LinkedQueue α} {a : α} {p : Nat} {n : Node α}
    (h : (q.push a).nodes p = some n) : n.val = a ∨ ∃ n', q.nodes p = some n' ∧ n'.val = n.val := by
  have hnew {p : Nat} {n : Node α}
      (h : Function.update q.nodes q.fresh (some { val := a, next := none }) p = some n) :
      n.val = a ∨ ∃ n', q.nodes p = some n' ∧ n'.val = n.val := by
    by_cases hp : p = q.fresh
    · rw [hp, Function.update_self, Option.some.injEq] at h
      exact .inl (h ▸ rfl)
    · rw [Function.update_of_ne hp] at h
      exact .inr ⟨n, h, rfl⟩
  unfold push at h
  cases hhead : q.head with
  | none =>
      rw [hhead] at h
      exact hnew h
  | some _ =>
      rw [hhead] at h
      cases htail : q.tail with
      | none =>
          rw [htail] at h
          exact hnew h
      | some t =>
          rw [htail] at h
          simp only [Option.map_some, Option.getD_some] at h
          by_cases hp : p = t
          · rw [hp, setNext, Function.update_self, Option.map_eq_some_iff] at h
            obtain ⟨m, hm, rfl⟩ := h
            rw [hp]
            show m.val = a ∨ ∃ n', q.nodes t = some n' ∧ n'.val = m.val
            exact hnew hm
          · rw [setNext, Function.update_of_ne hp] at h
            exact hnew h

/-- A cell behind a pop held its value before. -/
theorem pop_node {q : LinkedQueue α} {p k : Nat} {n : Node α} (h : (q.pop k).nodes p = some n) :
    q.nodes p = some n := by
  unfold pop at h
  dsimp only at h
  by_cases hp : p = k
  · rw [hp, Function.update_self] at h
    exact absurd h (by simp)
  · rwa [Function.update_of_ne hp] at h

theorem push_head_isSome (q : LinkedQueue α) (a : α) : (q.push a).head.isSome = true := by
  cases h : q.head <;> simp [LinkedQueue.push, h]

/-- `pop` of the head removes it. -/
theorem Repr.pop {q : LinkedQueue α} {i : Nat} {a : α} {xs : List (Nat × α)}
    (h : q.Repr ((i, a) :: xs)) : (q.pop i).Repr xs := by
  obtain ⟨-, nxt, hn, hseg⟩ := h.seg
  have hnd := h.nodup
  simp only [List.map_cons, List.nodup_cons] at hnd
  have hseg' : Seg (Function.update q.nodes i none) nxt xs :=
    hseg.congr fun j hj => Function.update_of_ne (by rintro rfl; exact hnd.1 hj) _ _
  refine ⟨by simpa [LinkedQueue.pop, hn] using hseg', hnd.2, ?_,
    fun j hj => h.fresh j (by simp [hj])⟩
  cases xs with
  | nil => simp [LinkedQueue.pop, hn, show nxt = none from hseg]
  | cons x xs => simp [LinkedQueue.pop, hn, hseg.1, h.tail]

-- A queue may also test its tail when it appends, and leave it alone when it takes
-- the head off.

/-- `if (tail == NULL) head = tail = p; else { tail->next = p; tail = p; }` for a new
    cell `p` that holds `a`. -/
def append (q : LinkedQueue α) (a : α) : LinkedQueue α :=
  let p := q.fresh
  let nodes := Function.update q.nodes p (some { val := a, next := none })
  match q.tail with
  | none => { head := some p, tail := some p, nodes, fresh := p + 1 }
  | some t => { q with tail := some p, nodes := setNext nodes t p, fresh := p + 1 }

/-- `next = h->next; free(h); head = next` -/
def shift (q : LinkedQueue α) (h : Nat) : LinkedQueue α :=
  { q with head := (q.nodes h).bind (·.next), nodes := Function.update q.nodes h none }

/-- `tail = NULL` -/
def clearTail (q : LinkedQueue α) : LinkedQueue α := { q with tail := none }

/-- While head and tail are NULL together, both tests say the same. -/
theorem Repr.append_eq_push {q : LinkedQueue α} {xs : List (Nat × α)} (h : q.Repr xs) (a : α) :
    q.append a = q.push a := by
  cases ht : q.tail with
  | none =>
      have hh : q.head = none := h.head_eq_none_iff.mpr (h.tail_eq_none_iff.mp ht)
      simp only [LinkedQueue.append, LinkedQueue.push, ht, hh]
  | some t =>
      have hne : xs ≠ [] := fun hnil => by
        have hnone := h.tail_eq_none_iff.mpr hnil
        rw [ht] at hnone
        exact Option.some_ne_none t hnone
      obtain ⟨i, hh⟩ := Option.ne_none_iff_exists'.mp fun hc => hne (h.head_eq_none_iff.mp hc)
      simp only [LinkedQueue.append, LinkedQueue.push, ht, hh, Option.map_some, Option.getD_some]

theorem Repr.append {q : LinkedQueue α} {xs : List (Nat × α)} (h : q.Repr xs) (a : α) :
    (q.append a).Repr (xs ++ [(q.fresh, a)]) := by
  rw [h.append_eq_push]
  exact h.push a

theorem shift_eq_pop {q : LinkedQueue α} {h : Nat} :
    q.pop h = if (q.shift h).head.isNone then (q.shift h).clearTail else q.shift h := by
  by_cases hnone : (q.shift h).head.isNone = true
  · rw [if_pos hnone]
    simp only [shift] at hnone
    simp [pop, shift, clearTail, hnone]
  · rw [if_neg hnone]
    simp only [shift] at hnone
    simp [pop, shift, hnone]

/-- Behind `shift` the queue is as it should be, but for a tail that points nowhere when
    nothing is left. -/
theorem Repr.shift {q : LinkedQueue α} {i : Nat} {a : α} {xs : List (Nat × α)}
    (h : q.Repr ((i, a) :: xs)) (hne : xs ≠ []) : (q.shift i).Repr xs := by
  have hpop := h.pop
  have hhead : (q.shift i).head = (q.pop i).head := rfl
  rw [shift_eq_pop, if_neg] at hpop
  · exact hpop
  · rw [Option.isNone_iff_eq_none, hhead]
    intro hnone
    exact hne (h.pop.head_eq_none_iff.mp hnone)

theorem Repr.shift_last {q : LinkedQueue α} {i : Nat} {a : α} (h : q.Repr [(i, a)]) :
    (q.shift i).head = none ∧ (q.shift i).clearTail.Repr [] := by
  have hpop := h.pop
  have hhead : (q.shift i).head = none := hpop.head_eq_none_iff.mpr rfl
  rw [shift_eq_pop, if_pos (Option.isNone_iff_eq_none.mpr hhead)] at hpop
  exact ⟨hhead, hpop⟩

/-- The cells from a pointer on, followed for at most `n` steps. -/
def walk (nodes : Nat → Option (Node α)) : Nat → Option Nat → List (Nat × α)
  | 0, _ => []
  | _ + 1, none => []
  | n + 1, some i =>
      match nodes i with
      | none => []
      | some c => (i, c.val) :: walk nodes n c.next

/-- The cells of the queue, found by following `next` from the head. -/
def cells (q : LinkedQueue α) : List (Nat × α) := walk q.nodes (q.fresh + 1) q.head

theorem Seg.walk_eq {nodes : Nat → Option (Node α)} {p : Option Nat} {xs : List (Nat × α)}
    (h : Seg nodes p xs) {n : Nat} (hn : xs.length < n) : walk nodes n p = xs := by
  induction xs generalizing p n with
  | nil =>
      obtain ⟨n, rfl⟩ := Nat.exists_eq_succ_of_ne_zero (by omega : n ≠ 0)
      rw [show p = none from h]
      rfl
  | cons x xs ih =>
      obtain ⟨i, a⟩ := x
      obtain ⟨rfl, nxt, hi, hseg⟩ := h
      obtain ⟨n, rfl⟩ := Nat.exists_eq_succ_of_ne_zero (by omega : n ≠ 0)
      simp only [walk, hi, ih hseg (by simpa using hn)]

theorem Repr.cells_eq {q : LinkedQueue α} {xs : List (Nat × α)} (h : q.Repr xs) :
    q.cells = xs := by
  refine h.seg.walk_eq ?_
  have hsub : xs.map Prod.fst ⊆ List.range q.fresh := fun i hi => List.mem_range.mpr (h.fresh i hi)
  have := (List.subperm_of_subset h.nodup hsub).length_le
  simp only [List.length_map, List.length_range] at this
  omega

theorem Repr.cells_push {q : LinkedQueue α} (h : q.Repr q.cells) (a : α) :
    (q.push a).cells = q.cells ++ [(q.fresh, a)] ∧ (q.push a).Repr (q.push a).cells := by
  have hpush := h.push a
  rw [hpush.cells_eq]
  exact ⟨rfl, hpush⟩

theorem Repr.cells_pop {q : LinkedQueue α} {i : Nat} {a : α} {xs : List (Nat × α)}
    (h : q.Repr q.cells)
    (hcells : q.cells = (i, a) :: xs) : (q.pop i).cells = xs ∧ (q.pop i).Repr (q.pop i).cells := by
  rw [hcells] at h
  rw [h.pop.cells_eq]
  exact ⟨rfl, h.pop⟩

theorem cells_empty : (empty : LinkedQueue α).cells = [] := repr_empty.cells_eq

/-- The head cell is the one the head pointer leads to. -/
theorem Repr.cells_head {q : LinkedQueue α} {i : Nat} {n : Node α} (h : q.Repr q.cells)
    (hhead : q.head = some i)
    (hn : q.nodes i = some n) : q.cells.head? = some (i, n.val) := by
  generalize hcells : q.cells = xs at h
  cases xs with
  | nil => exact absurd (hhead.symm.trans (h.head_eq_none_iff.mpr rfl)) (by simp)
  | cons x xs =>
      obtain ⟨j, a⟩ := x
      obtain ⟨hj, nxt, hnj⟩ := h.head_cons
      obtain rfl := Option.some.inj (hhead.symm.trans hj)
      rw [← Option.some.inj (hnj.symm.trans hn)]
      rfl

end LinkedQueue
end Lib
end HttpProxy
