/-
  HttpProxy.Lib.DoublyLinked

  A doubly linked list with a sentinel in front of its first node, the nodes living
  in a heap of cells.  `IsList m head as` says that the links lead from the sentinel
  `head` through exactly the nodes `as` and back.

  The operations follow and set the links as C code does; they have no result
  where a link leads to a cell that is not allocated.  `IsList.pushFront`,
  `IsList.unlink` and `IsList.popFront` say that on a list they have a result, what
  list it is, and that no cell outside of the list has changed.
-/

import Mathlib.Logic.Function.Basic
import Mathlib.Data.List.Nodup

namespace HttpProxy
namespace Lib

/-- A cell: its value and its two links. -/
structure DNode (P α : Type) where
  val : α
  prev : Option P
  next : Option P

/-- The cells that are allocated. -/
abbrev DHeap (P α : Type) : Type := P → Option (DNode P α)

namespace DHeap

variable {P α : Type}

-- ============================================================================
-- Lists
-- ============================================================================

/-- The cells from `first` on, behind `prev`, end in NULL. -/
def Seg (m : DHeap P α) : P → Option P → List P → Prop
  | _, first, [] => first = none
  | prev, first, a :: as => first = some a ∧ ∃ n, m a = some n ∧ n.prev = some prev ∧
      Seg m a n.next as

/-- The list behind a sentinel. -/
structure IsList (m : DHeap P α) (head : P) (as : List P) : Prop where
  seg : ∃ h, m head = some h ∧ h.prev = none ∧ m.Seg head h.next as
  nodup : (head :: as).Nodup

variable {m m' : DHeap P α} {head prev a p q x : P} {first : Option P} {as xs ys : List P}
  {n : DNode P α}

theorem Seg.congr (h : m.Seg prev first as) (heq : ∀ x ∈ as, m' x = m x) :
    m'.Seg prev first as := by
  induction as generalizing prev first with
  | nil => exact h
  | cons a as ih =>
      obtain ⟨hfirst, n, hn, hprev, hseg⟩ := h
      refine ⟨hfirst, n, ?_, hprev, ih hseg fun x hx => heq x (List.mem_cons_of_mem a hx)⟩
      rw [heq a List.mem_cons_self]
      exact hn

theorem Seg.first_eq (h : m.Seg prev first as) : first = as.head? := by
  cases as with
  | nil => exact h
  | cons a as => exact h.1

/-- The links of a node in the middle. -/
theorem Seg.split (h : m.Seg prev first (xs ++ a :: ys)) :
    ∃ n, m a = some n ∧ n.prev = some (xs.getLast?.getD prev) ∧ m.Seg a n.next ys := by
  induction xs generalizing prev first with
  | nil =>
      obtain ⟨-, n, hn, hprev, hseg⟩ := h
      exact ⟨n, hn, hprev, hseg⟩
  | cons x xs ih =>
      obtain ⟨-, nx, -, -, hseg⟩ := h
      obtain ⟨n, hn, hprev, hrest⟩ := ih hseg
      refine ⟨n, hn, ?_, hrest⟩
      rw [hprev, List.getLast?_cons]
      rfl

theorem Seg.alloc (h : m.Seg prev first as) (hx : x ∈ as) : ∃ n, m x = some n := by
  induction as generalizing prev first with
  | nil => exact absurd hx List.not_mem_nil
  | cons a as ih =>
      obtain ⟨-, n, hn, -, hseg⟩ := h
      rcases List.mem_cons.mp hx with rfl | hx
      · exact ⟨n, hn⟩
      · exact ih hseg hx

/-- A segment behind another cell, the link of its first node set accordingly. -/
theorem Seg.behind (h : m.Seg prev first as)
    (hfirst : ∀ q n, first = some q → m q = some n → m' q = some { n with prev := some p })
    (hrest : ∀ x ∈ as, first ≠ some x → m' x = m x) (hnodup : as.Nodup) :
    m'.Seg p first as := by
  cases as with
  | nil => exact h
  | cons a as =>
      obtain ⟨rfl, n, hn, -, hseg⟩ := h
      refine ⟨rfl, _, hfirst a n rfl hn, rfl, hseg.congr fun x hx => ?_⟩
      apply hrest x (List.mem_cons_of_mem a hx)
      rintro ⟨⟩
      exact (List.nodup_cons.mp hnodup).1 hx

theorem IsList.congr (h : m.IsList head as) (heq : ∀ x ∈ head :: as, m' x = m x) :
    m'.IsList head as where
  seg := by
    obtain ⟨n, hn, hprev, hseg⟩ := h.seg
    refine ⟨n, ?_, hprev, hseg.congr fun x hx => heq x (List.mem_cons_of_mem head hx)⟩
    rw [heq head List.mem_cons_self]
    exact hn
  nodup := h.nodup

/-- What is in front of a node of the list, and what is behind it. -/
theorem IsList.around (h : m.IsList head (xs ++ a :: ys)) :
    ∃ n p np, m a = some n ∧ n.prev = some p ∧ m p = some np ∧ p ≠ a ∧
      p ∈ head :: (xs ++ a :: ys) ∧
      ∀ q, n.next = some q → (∃ nq, m q = some nq) ∧ q ≠ a ∧ q ≠ p ∧ q ∈ ys := by
  obtain ⟨n₀, hn₀, -, hseg⟩ := h.seg
  obtain ⟨n, hn, hprev, hrest⟩ := hseg.split
  have hnodup := List.nodup_cons.mp h.nodup
  have hparts := List.nodup_append.mp hnodup.2
  have htail := List.nodup_cons.mp hparts.2.1
  generalize hp : xs.getLast?.getD head = p at hprev
  have hpmem : p = head ∨ p ∈ xs := by
    cases hlast : xs.getLast? with
    | none =>
        rw [hlast, Option.getD_none] at hp
        exact .inl hp.symm
    | some y =>
        rw [hlast, Option.getD_some] at hp
        rw [← hp]
        exact .inr (List.mem_of_getLast? hlast)
  have hpys : ∀ q ∈ a :: ys, q ≠ p := by
    rintro q hq rfl
    rcases hpmem with rfl | hpx
    · exact hnodup.1 (List.mem_append_right _ hq)
    · exact hparts.2.2 q hpx q hq rfl
  obtain ⟨np, hnp⟩ : ∃ np, m p = some np := by
    rcases hpmem with rfl | hpx
    · exact ⟨n₀, hn₀⟩
    · exact hseg.alloc (List.mem_append_left _ hpx)
  refine ⟨n, p, np, hn, hprev, hnp, (hpys a List.mem_cons_self).symm, ?_, fun q hq => ?_⟩
  · rcases hpmem with rfl | hpx
    · exact List.mem_cons_self
    · exact List.mem_cons_of_mem _ (List.mem_append_left _ hpx)
  · rw [hrest.first_eq] at hq
    have hqys : q ∈ ys := List.mem_of_mem_head? hq
    refine ⟨hrest.alloc hqys, ?_, hpys q (List.mem_cons_of_mem _ hqys), hqys⟩
    rintro rfl
    exact htail.1 hqys

variable [DecidableEq P]

-- ============================================================================
-- Operations
-- ============================================================================

/-- `p->next = v` -/
def setNext (m : DHeap P α) (p : P) (v : Option P) : Option (DHeap P α) :=
  (m p).map fun n => Function.update m p (some { n with next := v })

/-- `if (p) p->prev = v` -/
def setPrev (m : DHeap P α) (p : Option P) (v : P) : Option (DHeap P α) :=
  match p with
  | none => some m
  | some p => (m p).map fun n => Function.update m p (some { n with prev := some v })

/-- `free(p)` -/
def free (m : DHeap P α) (p : P) : Option (DHeap P α) :=
  (m p).map fun _ => Function.update m p none

/-- Link the new cell `a` between the sentinel and the first node. -/
def pushFront (m : DHeap P α) (head a : P) (x : α) : Option (DHeap P α) := do
  let h ← m head
  let m : DHeap P α := Function.update m a (some { val := x, prev := some head, next := h.next })
  let m ← m.setPrev h.next a
  m.setNext head (some a)

/-- `a->prev->next = a->next; if (a->next) a->next->prev = a->prev; free(a)` -/
def unlink (m : DHeap P α) (a : P) : Option (DHeap P α) := do
  let n ← m a
  let p ← n.prev
  let m ← m.setNext p n.next
  let m ← m.setPrev n.next p
  m.free a

/-- The first node is unlinked from the sentinel: its value. -/
def popFront (m : DHeap P α) (head : P) : Option (α × DHeap P α) := do
  let h ← m head
  let a ← h.next
  let n ← m a
  let m ← m.setNext head n.next
  let m ← m.setPrev n.next head
  let m ← m.free a
  return (n.val, m)

-- ============================================================================
-- The heap after an operation
-- ============================================================================

/-- The value of each cell but `a` stays. -/
def SameVals (m m' : DHeap P α) (a : P) : Prop :=
  ∀ x, x ≠ a → (m' x).map (·.val) = (m x).map (·.val)

/-- What unlinking `a` leaves, when `p` is in front of it. -/
structure Unlinked (m : DHeap P α) (a p : P) (n : DNode P α) (m' : DHeap P α) : Prop where
  freed : m' a = none
  front : ∀ np, m p = some np → m' p = some { np with next := n.next }
  behind : ∀ q nq, n.next = some q → m q = some nq → m' q = some { nq with prev := some p }
  rest : ∀ x, x ≠ a → x ≠ p → n.next ≠ some x → m' x = m x

/-- The three steps of unlinking. -/
theorem unlinked {np : DNode P α} (ha : m a = some n) (hp : m p = some np) (hpa : p ≠ a)
    (hq : ∀ q, n.next = some q → (∃ nq, m q = some nq) ∧ q ≠ a ∧ q ≠ p) :
    ∃ m', ((m.setNext p n.next).bind fun m => (m.setPrev n.next p).bind fun m => m.free a) =
      some m' ∧ m.Unlinked a p n m' := by
  rw [setNext, hp, Option.map_some, Option.bind_some]
  cases hnext : n.next with
  | none =>
      refine ⟨Function.update (Function.update m p (some { np with next := none })) a none, ?_, ?_⟩
      · rw [setPrev, Option.bind_some, free, Function.update_of_ne hpa.symm, ha, Option.map_some]
      · constructor
        · exact Function.update_self _ _ _
        · intro np' hnp'
          rw [Function.update_of_ne hpa, Function.update_self, hnext]
          rw [hp, Option.some.injEq] at hnp'
          rw [hnp']
        · intro q nq hq
          rw [hnext] at hq
          exact absurd hq (by simp)
        · intro x hxa hxp _
          rw [Function.update_of_ne hxa, Function.update_of_ne hxp]
  | some q =>
      obtain ⟨⟨nq, hnq⟩, hqa, hqp⟩ := hq q hnext
      refine ⟨Function.update (Function.update (Function.update m p
        (some { np with next := some q })) q (some { nq with prev := some p })) a none, ?_, ?_⟩
      · simp only [setPrev]
        rw [Function.update_of_ne hqp, hnq, Option.map_some, Option.bind_some, free,
          Function.update_of_ne hqa.symm, Function.update_of_ne hpa.symm, ha, Option.map_some]
      · constructor
        · exact Function.update_self _ _ _
        · intro np' hnp'
          rw [Function.update_of_ne hpa, Function.update_of_ne hqp.symm,
            Function.update_self, hnext]
          rw [hp, Option.some.injEq] at hnp'
          rw [hnp']
        · intro q' nq' hq' hnq'
          rw [hnext, Option.some.injEq] at hq'
          subst hq'
          rw [Function.update_of_ne hqa, Function.update_self]
          rw [hnq, Option.some.injEq] at hnq'
          rw [hnq']
        · intro x hxa hxp hxq
          have hne : x ≠ q := by
            rintro rfl
            exact hxq hnext
          rw [Function.update_of_ne hxa, Function.update_of_ne hne, Function.update_of_ne hxp]

theorem Unlinked.sameVals (h : m.Unlinked a p n m') (hp : ∃ np, m p = some np)
    (hq : ∀ q, n.next = some q → ∃ nq, m q = some nq) : m.SameVals m' a := by
  intro x hxa
  by_cases hxp : x = p
  · subst hxp
    obtain ⟨np, hnp⟩ := hp
    rw [h.front np hnp, hnp]
    rfl
  by_cases hxq : n.next = some x
  · obtain ⟨nq, hnq⟩ := hq x hxq
    rw [h.behind x nq hxq hnq, hnq]
    rfl
  · rw [h.rest x hxa hxp hxq]

omit [DecidableEq P] in
/-- Without `a` the segment closes up. -/
theorem Seg.unlink (h : m.Seg prev first (xs ++ a :: ys)) (ha : m a = some n)
    (hp : n.prev = some p) (hnodup : (prev :: (xs ++ a :: ys)).Nodup)
    (hm : m.Unlinked a p n m') :
    m'.Seg prev (if xs = [] then n.next else first) (xs ++ ys) := by
  obtain ⟨n', hn', hprev, hrest⟩ := h.split
  rw [ha, Option.some.injEq] at hn'
  subst hn'
  rw [hp, Option.some.injEq] at hprev
  induction xs generalizing prev first with
  | nil =>
      -- `a` is the first node: what is in front of it leads to what is behind it
      subst hprev
      rw [if_pos rfl, List.nil_append]
      simp only [List.nil_append, List.nodup_cons, List.mem_cons, not_or] at hnodup
      refine hrest.behind hm.behind (fun x hx hne => hm.rest x ?_ ?_ hne) hnodup.2.2
      · rintro rfl
        exact hnodup.2.1 hx
      · rintro rfl
        exact hnodup.1.2 hx
  | cons x xs ih =>
      rw [if_neg (List.cons_ne_nil x xs)]
      obtain ⟨hfirst, nx, hnx, hxprev, hseg⟩ := h
      rw [List.cons_append, List.nodup_cons] at hnodup
      have hin := List.nodup_cons.mp hnodup.2
      have hlast : p = xs.getLast?.getD x := by
        rw [hprev, List.getLast?_cons]
        rfl
      have hih := ih hseg hnodup.2 hlast
      have hxa : x ≠ a := by
        rintro rfl
        exact hin.1 (List.mem_append_right _ List.mem_cons_self)
      have hxq : n.next ≠ some x := by
        intro hx
        rw [hrest.first_eq] at hx
        refine hin.1 (List.mem_append_right _ (List.mem_cons_of_mem _ ?_))
        exact List.mem_of_mem_head? hx
      by_cases hxs : xs = []
      · subst hxs
        rw [if_pos rfl] at hih
        rw [List.getLast?_nil, Option.getD_none] at hlast
        subst hlast
        exact ⟨hfirst, _, hm.front nx hnx, hxprev, hih⟩
      · rw [if_neg hxs] at hih
        have hxp : x ≠ p := by
          rintro rfl
          have hmem : xs.getLast hxs ∈ xs := List.getLast_mem hxs
          rw [List.getLast?_eq_getLast_of_ne_nil hxs, Option.getD_some] at hlast
          rw [← hlast] at hmem
          exact hin.1 (List.mem_append_left _ hmem)
        exact ⟨hfirst, nx, (hm.rest x hxa hxp hxq).trans hnx, hxprev, hih⟩

-- ============================================================================
-- Operations on a list
-- ============================================================================

/-- Removing a node, wherever it is. -/
theorem IsList.unlink (h : m.IsList head (xs ++ a :: ys)) :
    ∃ m', m.unlink a = some m' ∧ m'.IsList head (xs ++ ys) ∧ m' a = none ∧
      (∀ x, x ∉ head :: (xs ++ a :: ys) → m' x = m x) ∧ m.SameVals m' a := by
  obtain ⟨n, p, np, hn, hprev, hnp, hpa, hpmem, hnext⟩ := h.around
  obtain ⟨m', hm', hunlinked⟩ := unlinked hn hnp hpa
    fun q hq => ⟨(hnext q hq).1, (hnext q hq).2.1, (hnext q hq).2.2.1⟩
  have hout : ∀ x, x ∉ head :: (xs ++ a :: ys) → m' x = m x := by
    intro x hx
    apply hunlinked.rest
    · rintro rfl
      exact hx (List.mem_cons_of_mem _ (List.mem_append_right _ List.mem_cons_self))
    · rintro rfl
      exact hx hpmem
    · intro hq
      exact hx (List.mem_cons_of_mem _ (List.mem_append_right _
        (List.mem_cons_of_mem _ (hnext x hq).2.2.2)))
  refine ⟨m', ?_, ⟨?_, ?_⟩, hunlinked.freed, hout, hunlinked.sameVals ⟨np, hnp⟩
    fun q hq => (hnext q hq).1⟩
  · rw [DHeap.unlink, hn]
    show (n.prev.bind _) = _
    rw [hprev]
    exact hm'
  · obtain ⟨h₀, hh₀, hprev₀, hseg⟩ := h.seg
    have hclosed := hseg.unlink hn hprev h.nodup hunlinked
    have hheada : head ≠ a := by
      rintro rfl
      exact (List.nodup_cons.mp h.nodup).1 (List.mem_append_right _ List.mem_cons_self)
    have hheadq : n.next ≠ some head := by
      intro hq
      exact (List.nodup_cons.mp h.nodup).1 (List.mem_append_right _
        (List.mem_cons_of_mem _ (hnext head hq).2.2.2))
    obtain ⟨n', hn', hprev', -⟩ := hseg.split
    rw [hn, Option.some.injEq] at hn'
    subst hn'
    rw [hprev, Option.some.injEq] at hprev'
    cases xs with
    | nil =>
        rw [List.getLast?_nil, Option.getD_none] at hprev'
        subst hprev'
        exact ⟨_, hunlinked.front h₀ hh₀, hprev₀, hclosed⟩
    | cons x xs =>
        have hpx : p ∈ x :: xs := by
          rw [hprev', List.getLast?_eq_getLast_of_ne_nil (List.cons_ne_nil x xs),
            Option.getD_some]
          exact List.getLast_mem _
        have hheadp : head ≠ p := by
          rintro rfl
          exact (List.nodup_cons.mp h.nodup).1 (List.mem_append_left _ hpx)
        exact ⟨h₀, (hunlinked.rest head hheada hheadp hheadq).trans hh₀, hprev₀, hclosed⟩
  · have hsub : (head :: (xs ++ ys)).Sublist (head :: (xs ++ a :: ys)) :=
      List.Sublist.cons_cons head ((List.sublist_cons_self a ys).append_left xs)
    exact h.nodup.sublist hsub

/-- Taking the first node is unlinking it. -/
theorem IsList.popFront (h : m.IsList head (a :: as)) :
    ∃ n m', m a = some n ∧ m.popFront head = some (n.val, m') ∧ m.unlink a = some m' := by
  obtain ⟨h₀, hh₀, -, hfirst, n, hn, hprev, -⟩ := h.seg
  have hlist : m.IsList head ([] ++ a :: as) := h
  obtain ⟨m', hm', -⟩ := hlist.unlink
  refine ⟨n, m', hn, ?_, hm'⟩
  simp only [DHeap.unlink, hn, hprev, Option.bind_eq_bind, Option.bind_some] at hm'
  obtain ⟨m₁, hm₁, hrest⟩ := Option.bind_eq_some_iff.mp hm'
  obtain ⟨m₂, hm₂, hfree⟩ := Option.bind_eq_some_iff.mp hrest
  simp only [DHeap.popFront, hh₀, hfirst, hn, hm₁, hm₂, hfree, Option.bind_eq_bind,
    Option.bind_some]
  rfl

/-- What adding `a` behind the sentinel leaves, when `h` was the sentinel. -/
structure Pushed (m : DHeap P α) (head a : P) (x : α) (h : DNode P α) (m' : DHeap P α) : Prop where
  new : m' a = some { val := x, prev := some head, next := h.next }
  front : m' head = some { h with next := some a }
  behind : ∀ q nq, h.next = some q → m q = some nq → m' q = some { nq with prev := some a }
  rest : ∀ y, y ≠ a → y ≠ head → h.next ≠ some y → m' y = m y

theorem pushed {h : DNode P α} (hhead : m head = some h) (ha : head ≠ a)
    (hq : ∀ q, h.next = some q → (∃ nq, m q = some nq) ∧ q ≠ a ∧ q ≠ head) (x : α) :
    ∃ m', m.pushFront head a x = some m' ∧ m.Pushed head a x h m' := by
  simp only [DHeap.pushFront, hhead, Option.bind_eq_bind, Option.bind_some]
  generalize hm₁ : Function.update m a (some { val := x, prev := some head, next := h.next }) = m₁
  have hself : m₁ a = some { val := x, prev := some head, next := h.next } := by
    rw [← hm₁, Function.update_self]
  have hothers : ∀ y, y ≠ a → m₁ y = m y := by
    intro y hy
    rw [← hm₁, Function.update_of_ne hy]
  cases hnext : h.next with
  | none =>
      refine ⟨Function.update m₁ head (some { h with next := some a }), ?_, ?_, ?_, ?_, ?_⟩
      · rw [setPrev, Option.bind_some, setNext, hothers head ha, hhead, Option.map_some]
      · rw [Function.update_of_ne ha.symm, hself]
      · exact Function.update_self _ _ _
      · intro q nq hq
        rw [hnext] at hq
        exact absurd hq (by simp)
      · intro y hya hyh _
        rw [Function.update_of_ne hyh, hothers y hya]
  | some q =>
      obtain ⟨⟨nq, hnq⟩, hqa, hqh⟩ := hq q hnext
      refine ⟨Function.update (Function.update m₁ q (some { nq with prev := some a })) head
        (some { h with next := some a }), ?_, ?_, ?_, ?_, ?_⟩
      · simp only [setPrev]
        rw [hothers q hqa, hnq, Option.map_some, Option.bind_some, setNext,
          Function.update_of_ne hqh.symm, hothers head ha, hhead, Option.map_some]
      · rw [Function.update_of_ne ha.symm, Function.update_of_ne hqa.symm, hself]
      · exact Function.update_self _ _ _
      · intro q' nq' hq' hnq'
        rw [hnext, Option.some.injEq] at hq'
        subst hq'
        rw [hnq, Option.some.injEq] at hnq'
        rw [Function.update_of_ne hqh, Function.update_self, hnq']
      · intro y hya hyh hyq
        have hne : y ≠ q := by
          rintro rfl
          exact hyq hnext
        rw [Function.update_of_ne hyh, Function.update_of_ne hne, hothers y hya]

/-- Adding a new node in front. -/
theorem IsList.pushFront (h : m.IsList head as) (ha : m a = none) (x : α) :
    ∃ m', m.pushFront head a x = some m' ∧ m'.IsList head (a :: as) ∧
      (∃ n, m' a = some n ∧ n.val = x) ∧
      (∀ y, y ∉ head :: a :: as → m' y = m y) ∧ m.SameVals m' a := by
  obtain ⟨h₀, hh₀, hprev₀, hseg⟩ := h.seg
  have hnodup := List.nodup_cons.mp h.nodup
  have hold : ∀ y ∈ head :: as, y ≠ a := by
    rintro y hy rfl
    have halloc : ∃ n, m y = some n := by
      rcases List.mem_cons.mp hy with rfl | hy
      · exact ⟨h₀, hh₀⟩
      · exact hseg.alloc hy
    obtain ⟨n, hn⟩ := halloc
    rw [ha] at hn
    exact absurd hn (by simp)
  have hmem : ∀ q, h₀.next = some q → q ∈ as := by
    intro q hq
    rw [hseg.first_eq] at hq
    exact List.mem_of_mem_head? hq
  have hheada : head ≠ a := hold head List.mem_cons_self
  obtain ⟨m', hm', hpushed⟩ := pushed hh₀ hheada (fun q hq => ⟨hseg.alloc (hmem q hq),
    hold q (List.mem_cons_of_mem _ (hmem q hq)), fun heq => hnodup.1 (heq ▸ hmem q hq)⟩) x
  refine ⟨m', hm', ⟨?_, ?_⟩, ⟨_, hpushed.new, rfl⟩, fun y hy => ?_, fun y hya => ?_⟩
  · refine ⟨_, hpushed.front, hprev₀, rfl, _, hpushed.new, rfl, ?_⟩
    refine hseg.behind hpushed.behind (fun y hy hne => ?_) hnodup.2
    refine hpushed.rest y (hold y (List.mem_cons_of_mem _ hy)) ?_ hne
    rintro rfl
    exact hnodup.1 hy
  · refine List.nodup_cons.mpr ⟨?_, List.nodup_cons.mpr ⟨?_, hnodup.2⟩⟩
    · rw [List.mem_cons]
      rintro (heq | hin)
      · exact hheada heq
      · exact hnodup.1 hin
    · intro hin
      exact hold a (List.mem_cons_of_mem _ hin) rfl
  · simp only [List.mem_cons, not_or] at hy
    exact hpushed.rest y hy.2.1 hy.1 fun hq => hy.2.2 (hmem y hq)
  · by_cases hyh : y = head
    · rw [hyh, hpushed.front, hh₀]
      rfl
    by_cases hyq : h₀.next = some y
    · obtain ⟨nq, hnq⟩ := hseg.alloc (hmem y hyq)
      rw [hpushed.behind y nq hyq hnq, hnq]
      rfl
    · rw [hpushed.rest y hya hyh hyq]

end DHeap

end Lib
end HttpProxy
