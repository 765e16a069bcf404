/-
  HttpProxy.Dispatch.EventQueue

  core/event.c with handlers that do whatever they like.  A handler with its
  `data0` is a value of `H`, what `event_post` carries is a value of `D`; what a
  handler does to the module while it runs is up to the choices of the run.

  `EventModule.step` is one call of the module, one turn of the loop of
  `event_work`, or the return of a handler.  `trace` records the calls and what
  became of the events, and says what the module is for: `eventQueue_fifo` reads
  the order of the events and the handlers they met off the trace alone.
-/

import HttpProxy.Lib.LinkedQueue
import HttpProxy.Lib.Run
import HttpProxy.System.Ops

namespace HttpProxy

open Lib

-- ============================================================================
-- The module
-- ============================================================================

/-- What happened, in the order it happened. -/
inductive EventAct (H D : Type) where
  | post (ev : EventId × D)
  | setHandler (eid : EventId) (h : H)
  | freeId (eid : EventId)
  /-- an event is taken off the queue and passed to a handler -/
  | call (h : H) (ev : EventId × D)
  /-- an event is taken off the queue, and nobody wants it -/
  | drop (ev : EventId × D)
  /-- `event_work` returns -/
  | ret
deriving DecidableEq

/-- Where the main loop is: outside `event_work`, at the head of its loop, or in the
    handler of the head node. -/
inductive EventPc where
  | outside
  | loop
  | handler
deriving DecidableEq

/-- The static variables of core/event.c: `handlers`, and `head` and `tail` with the
    nodes they lead to. -/
structure EventModule (H D : Type) where
  handlers : EventId → Option H
  queue : LinkedQueue (EventId × D)
  pc : EventPc
  trace : List (EventAct H D)

/-- A call of the module from outside, or the next thing `event_work` does. -/
inductive EventCall (H D : Type) where
  | post (eid : EventId) (data : D)
  | setHandler (eid : EventId) (h : H)
  | freeId (eid : EventId)
  | work
  | next

namespace EventModule

variable {H D : Type}

def init : EventModule H D where
  handlers := fun _ => none
  queue := .empty
  pc := .outside
  trace := []

def log (m : EventModule H D) (a : EventAct H D) : EventModule H D :=
  { m with trace := m.trace ++ [a] }

/-- `event_post` -/
def eventPost (m : EventModule H D) (eid : EventId) (data : D) : EventModule H D :=
  { m with queue := m.queue.append (eid, data) }.log (.post (eid, data))

/-- `event_set_handler` -/
def eventSetHandler (m : EventModule H D) (eid : EventId) (h : H) : EventModule H D :=
  { m with handlers := Function.update m.handlers eid (some h) }.log (.setHandler eid h)

/-- `event_free_id` -/
def eventFreeId (m : EventModule H D) (eid : EventId) : EventModule H D :=
  { m with handlers := Function.update m.handlers eid none }.log (.freeId eid)

/-- `event_work` at `while (head)`, up to the call of the handler. -/
def eventWork (m : EventModule H D) : Option (EventModule H D) :=
  match m.queue.head with
  | none => some ({ m with queue := m.queue.clearTail, pc := .outside }.log .ret)
  | some i =>
      -- a dangling head stops the run
      (m.queue.nodes i).map fun n =>
        match m.handlers n.val.1 with
        | none => { m with queue := m.queue.shift i }.log (.drop n.val)
        | some h => { m with pc := .handler }.log (.call h n.val)

/-- The handler of the head node returns: the node is freed only now. -/
def eventReturn (m : EventModule H D) : Option (EventModule H D) :=
  m.queue.head.map fun i => { m with queue := m.queue.shift i, pc := .loop }

/-- One step.  A handler may call everything but `event_work`. -/
def step (m : EventModule H D) : EventCall H D → Option (EventModule H D)
  | .post eid data => if m.pc = .loop then none else some (m.eventPost eid data)
  | .setHandler eid h => if m.pc = .loop then none else some (m.eventSetHandler eid h)
  | .freeId eid => if m.pc = .loop then none else some (m.eventFreeId eid)
  | .work => if m.pc = .outside then some { m with pc := .loop } else none
  | .next =>
      match m.pc with
      | .outside => none
      | .loop => m.eventWork
      | .handler => m.eventReturn

/-- Every sequence of calls. -/
abbrev Reachable (m : EventModule H D) : Prop := Run step (fun _ _ => True) init m

end EventModule

-- ============================================================================
-- What a trace says
-- ============================================================================

namespace EventAct

variable {H D : Type}

/-- The event a call of `event_post` appends. -/
def posted? : EventAct H D → Option (EventId × D)
  | .post ev => some ev
  | _ => none

/-- The event that is taken off the queue. -/
def taken? : EventAct H D → Option (EventId × D)
  | .call _ ev => some ev
  | .drop ev => some ev
  | _ => none

/-- The events posted, in order. -/
def posted (t : List (EventAct H D)) : List (EventId × D) := t.filterMap posted?

/-- The events taken off the queue, in order. -/
def taken (t : List (EventAct H D)) : List (EventId × D) := t.filterMap taken?

/-- The handler registered for an id after the calls of a trace. -/
def registered : List (EventAct H D) → EventId → Option H :=
  List.foldl (fun r a =>
    match a with
    | .setHandler eid h => Function.update r eid (some h)
    | .freeId eid => Function.update r eid none
    | _ => r) fun _ => none

/-- `a` is as it should be behind the trace `t`: an event that is taken off is the first
    one posted that has not been taken off before, and it goes to the handler registered
    for its id, if there is one; `event_work` returns when none is left. -/
def Right (t : List (EventAct H D)) : EventAct H D → Prop
  | .call h ev => taken t ++ [ev] <+: posted t ∧ registered t ev.1 = some h
  | .drop ev => taken t ++ [ev] <+: posted t ∧ registered t ev.1 = none
  | .ret => taken t = posted t
  | _ => True

/-- Everything in a trace is as it should be. -/
def AllRight (t : List (EventAct H D)) : Prop := ∀ t₁ a t₂, t = t₁ ++ a :: t₂ → Right t₁ a

variable {t : List (EventAct H D)} {a : EventAct H D}

@[simp] theorem posted_snoc : posted (t ++ [a]) = posted t ++ (posted? a).toList := by
  rw [posted, List.filterMap_append, posted]
  cases a <;> rfl

@[simp] theorem taken_snoc : taken (t ++ [a]) = taken t ++ (taken? a).toList := by
  rw [taken, List.filterMap_append, taken]
  cases a <;> rfl

theorem registered_snoc : registered (t ++ [a]) =
    match a with
    | .setHandler eid h => Function.update (registered t) eid (some h)
    | .freeId eid => Function.update (registered t) eid none
    | _ => registered t := by
  rw [registered, List.foldl_append]
  rfl

theorem allRight_nil : AllRight ([] : List (EventAct H D)) := by
  intro t₁ a t₂ h
  exact absurd h.symm (by simp)

theorem AllRight.snoc (h : AllRight t) (ha : Right t a) : AllRight (t ++ [a]) := by
  intro t₁ b t₂ heq
  rcases List.eq_nil_or_concat t₂ with rfl | ⟨t₃, c, rfl⟩
  · obtain ⟨rfl, hab⟩ := List.append_inj' heq rfl
    obtain rfl := (List.cons.inj hab).1
    exact ha
  · rw [List.concat_eq_append, ← List.cons_append, ← List.append_assoc] at heq
    exact h t₁ b t₃ (List.append_inj' heq rfl).1

end EventAct

-- ============================================================================
-- The queue behind the trace
-- ============================================================================

namespace EventModule

open EventAct

variable {H D : Type} {m m' : EventModule H D}

/-- What is still to be taken off: in a handler the head node is linked, but taken. -/
def pending (pc : EventPc) (xs : List (Nat × EventId × D)) : List (EventId × D) :=
  match pc with
  | .handler => xs.tail.map Prod.snd
  | _ => xs.map Prod.snd

/-- The nodes hold the events that have been posted and not been taken off, behind the one
    in its handler.  Only at the head of the loop may the tail point nowhere. -/
structure Inv (m : EventModule H D) (xs : List (Nat × EventId × D)) : Prop where
  queue : m.queue.Repr xs ∨ m.pc = .loop ∧ m.queue.head = none ∧ xs = [] ∧
    m.queue.clearTail.Repr []
  busy : m.pc = .handler → xs ≠ []
  order : posted m.trace = taken m.trace ++ pending m.pc xs
  table : m.handlers = registered m.trace
  right : AllRight m.trace

theorem inv_init : Inv (init : EventModule H D) [] where
  queue := .inl LinkedQueue.repr_empty
  busy := fun hc => EventPc.noConfusion (show EventPc.outside = .handler from hc)
  order := rfl
  table := rfl
  right := allRight_nil

/-- Outside the head of the loop, head and tail are those of the queue. -/
theorem Inv.repr {xs : List (Nat × EventId × D)} (h : m.Inv xs) (hpc : m.pc ≠ .loop) :
    m.queue.Repr xs := by
  rcases h.queue with hrepr | ⟨hloop, -⟩
  · exact hrepr
  · exact absurd hloop hpc

theorem pending_snoc {pc : EventPc} {xs : List (Nat × EventId × D)} (x : Nat × EventId × D)
    (h : pc = .handler → xs ≠ []) : pending pc (xs ++ [x]) = pending pc xs ++ [x.2] := by
  cases pc with
  | outside => simp [pending]
  | loop => simp [pending]
  | handler =>
      obtain ⟨y, ys, rfl⟩ := List.exists_cons_of_ne_nil (h rfl)
      simp [pending]

theorem Inv.post {xs : List (Nat × EventId × D)} (h : m.Inv xs) (hpc : m.pc ≠ .loop)
    (eid : EventId) (data : D) :
    (m.eventPost eid data).Inv (xs ++ [(m.queue.fresh, eid, data)]) where
  queue := .inl ((h.repr hpc).append (eid, data))
  busy := fun _ => by simp
  order := by
    show posted (m.trace ++ [.post (eid, data)]) = taken (m.trace ++ [.post (eid, data)]) ++ _
    rw [posted_snoc, taken_snoc, h.order]
    show taken m.trace ++ pending m.pc xs ++ [(eid, data)] =
      taken m.trace ++ [] ++ pending m.pc (xs ++ [(m.queue.fresh, eid, data)])
    rw [pending_snoc _ h.busy, List.append_nil, List.append_assoc]
  table := by
    show m.handlers = registered (m.trace ++ [.post (eid, data)])
    rw [registered_snoc, h.table]
  right := h.right.snoc trivial

/-- A call that only changes the handlers. -/
theorem Inv.handlers {xs : List (Nat × EventId × D)} (h : m.Inv xs) {a : EventAct H D}
    {r : EventId → Option H} (hr : r = registered (m.trace ++ [a])) (hp : posted? a = none)
    (ht : taken? a = none) (ha : Right m.trace a) : ({ m with handlers := r }.log a).Inv xs where
  queue := h.queue
  busy := h.busy
  order := by
    show posted (m.trace ++ [a]) = taken (m.trace ++ [a]) ++ pending m.pc xs
    rw [posted_snoc, taken_snoc, hp, ht, h.order, Option.toList_none, List.append_nil,
      List.append_nil]
  table := hr
  right := h.right.snoc ha

theorem Inv.setHandler {xs : List (Nat × EventId × D)} (hi : m.Inv xs) (eid : EventId) (h : H) :
    (m.eventSetHandler eid h).Inv xs :=
  hi.handlers (by rw [registered_snoc, hi.table]) rfl rfl trivial

theorem Inv.freeId {xs : List (Nat × EventId × D)} (h : m.Inv xs) (eid : EventId) :
    (m.eventFreeId eid).Inv xs :=
  h.handlers (by rw [registered_snoc, h.table]) rfl rfl trivial

/-- `event_work` at the head of its loop, with nothing left. -/
theorem Inv.done {xs : List (Nat × EventId × D)} (h : m.Inv xs) (hpc : m.pc = .loop)
    (hhead : m.queue.head = none) :
    ({ m with queue := m.queue.clearTail, pc := .outside }.log .ret).Inv [] := by
  have hempty : xs = [] ∧ m.queue.clearTail.Repr [] := by
    rcases h.queue with hrepr | ⟨-, -, hnil, hrepr⟩
    · have hnil := hrepr.head_eq_none_iff.mp hhead
      subst hnil
      have htail := hrepr.tail_eq_none_iff.mpr rfl
      refine ⟨rfl, ?_⟩
      rw [LinkedQueue.clearTail, ← htail]
      exact hrepr
    · exact ⟨hnil, hrepr⟩
  have horder := h.order
  rw [hpc, hempty.1] at horder
  simp only [pending, List.map_nil, List.append_nil] at horder
  refine ⟨.inl hempty.2,
    fun hc => EventPc.noConfusion (show EventPc.outside = .handler from hc), ?_, ?_,
    h.right.snoc horder.symm⟩
  · show posted (m.trace ++ [.ret]) = taken (m.trace ++ [.ret]) ++ []
    rw [posted_snoc, taken_snoc, horder]
    simp [posted?, taken?]
  · show m.handlers = registered (m.trace ++ [.ret])
    rw [registered_snoc, h.table]

/-- The head node is taken off behind its event. -/
theorem shift_queue {q : LinkedQueue (EventId × D)} {i : Nat} {ev : EventId × D}
    {xs : List (Nat × EventId × D)} (h : q.Repr ((i, ev) :: xs)) :
    (q.shift i).Repr xs ∨
      (q.shift i).head = none ∧ xs = [] ∧ (q.shift i).clearTail.Repr [] := by
  cases xs with
  | nil => exact .inr ⟨h.shift_last.1, rfl, h.shift_last.2⟩
  | cons x xs => exact .inl (h.shift (by simp))

/-- The first of the pending events is the next one. -/
theorem Inv.first {i : Nat} {ev : EventId × D} {xs : List (Nat × EventId × D)}
    (h : m.Inv ((i, ev) :: xs)) (hpc : m.pc = .loop) :
    taken m.trace ++ [ev] <+: posted m.trace := by
  have horder := h.order
  rw [hpc] at horder
  refine ⟨xs.map Prod.snd, ?_⟩
  rw [horder, List.append_assoc]
  rfl

theorem Inv.drop {i : Nat} {ev : EventId × D} {xs : List (Nat × EventId × D)}
    (h : m.Inv ((i, ev) :: xs)) (hpc : m.pc = .loop) (hrepr : m.queue.Repr ((i, ev) :: xs))
    (hnone : m.handlers ev.1 = none) :
    ({ m with queue := m.queue.shift i }.log (.drop ev)).Inv xs where
  queue := (shift_queue hrepr).imp id fun hq => ⟨hpc, hq⟩
  busy := fun hc => EventPc.noConfusion (hpc.symm.trans hc)
  order := by
    show posted (m.trace ++ [.drop ev]) = taken (m.trace ++ [.drop ev]) ++ pending m.pc xs
    rw [posted_snoc, taken_snoc, h.order, hpc]
    simp [pending, posted?, taken?]
  table := by
    show m.handlers = registered (m.trace ++ [.drop ev])
    rw [registered_snoc, h.table]
  right := by
    refine h.right.snoc ⟨h.first hpc, ?_⟩
    rw [← h.table, hnone]

theorem Inv.call {i : Nat} {ev : EventId × D} {xs : List (Nat × EventId × D)}
    (hi : m.Inv ((i, ev) :: xs)) (hpc : m.pc = .loop) (hrepr : m.queue.Repr ((i, ev) :: xs)) {h : H}
    (hsome : m.handlers ev.1 = some h) :
    ({ m with pc := .handler }.log (.call h ev)).Inv ((i, ev) :: xs) where
  queue := .inl hrepr
  busy := fun _ => by simp
  order := by
    show posted (m.trace ++ [.call h ev]) = taken (m.trace ++ [.call h ev]) ++ xs.map Prod.snd
    rw [posted_snoc, taken_snoc, hi.order, hpc]
    simp [pending, posted?, taken?]
  table := by
    show m.handlers = registered (m.trace ++ [.call h ev])
    rw [registered_snoc, hi.table]
  right := by
    refine hi.right.snoc ⟨hi.first hpc, ?_⟩
    rw [← hi.table, hsome]

theorem Inv.work {xs : List (Nat × EventId × D)} (h : m.Inv xs) (hpc : m.pc = .loop)
    (hs : m.eventWork = some m') : ∃ xs', m'.Inv xs' := by
  rw [eventWork] at hs
  cases hhead : m.queue.head with
  | none =>
      simp only [hhead, Option.some.injEq] at hs
      exact ⟨[], hs ▸ h.done hpc hhead⟩
  | some i =>
      have hrepr : m.queue.Repr xs := h.queue.resolve_right fun hq => by simp [hq.2.1] at hhead
      cases xs with
      | nil => exact absurd (hrepr.head_eq_none_iff.mpr rfl) (by simp [hhead])
      | cons x xs =>
          obtain ⟨j, ev⟩ := x
          obtain ⟨hj, nxt, hnode⟩ := hrepr.head_cons
          obtain rfl : i = j := Option.some.inj (hhead.symm.trans hj)
          simp only [hhead, hnode, Option.map_some, Option.some.injEq] at hs
          cases hfind : m.handlers ev.1 with
          | none =>
              simp only [hfind] at hs
              exact ⟨xs, hs ▸ h.drop hpc hrepr hfind⟩
          | some f =>
              simp only [hfind] at hs
              exact ⟨_, hs ▸ h.call hpc hrepr hfind⟩

/-- The handler of the head node returns. -/
theorem Inv.back {i : Nat} {ev : EventId × D} {xs : List (Nat × EventId × D)}
    (h : m.Inv ((i, ev) :: xs)) (hpc : m.pc = .handler) (hs : m.eventReturn = some m') :
    m'.Inv xs := by
  have hrepr := h.repr (by rw [hpc]; decide)
  have horder := h.order
  rw [hpc] at horder
  rw [eventReturn, hrepr.head_cons.1, Option.map_some, Option.some.injEq] at hs
  subst hs
  exact ⟨(shift_queue hrepr).imp id fun hq => ⟨rfl, hq⟩,
    fun hc => EventPc.noConfusion (show EventPc.loop = .handler from hc), horder, h.table, h.right⟩

/-- `event_work` is called. -/
theorem Inv.enter {xs : List (Nat × EventId × D)} (h : m.Inv xs) (hpc : m.pc = .outside) :
    Inv { m with pc := .loop } xs := by
  have horder := h.order
  rw [hpc] at horder
  exact ⟨.inl (h.repr (by rw [hpc]; decide)),
    fun hc => EventPc.noConfusion (show EventPc.loop = .handler from hc), horder, h.table, h.right⟩

/-- Every step keeps the invariant. -/
theorem Inv.step {xs : List (Nat × EventId × D)} {c : EventCall H D} (h : m.Inv xs)
    (hs : m.step c = some m') : ∃ xs', m'.Inv xs' := by
  cases c with
  | post eid data =>
      simp only [EventModule.step, Option.ite_none_left_eq_some, Option.some.injEq] at hs
      exact ⟨_, hs.2 ▸ h.post hs.1 eid data⟩
  | setHandler eid f =>
      simp only [EventModule.step, Option.ite_none_left_eq_some, Option.some.injEq] at hs
      exact ⟨xs, hs.2 ▸ h.setHandler eid f⟩
  | freeId eid =>
      simp only [EventModule.step, Option.ite_none_left_eq_some, Option.some.injEq] at hs
      exact ⟨xs, hs.2 ▸ h.freeId eid⟩
  | work =>
      simp only [EventModule.step, Option.ite_none_right_eq_some, Option.some.injEq] at hs
      exact ⟨xs, hs.2 ▸ h.enter hs.1⟩
  | next =>
      cases hpc : m.pc with
      | outside => simp [EventModule.step, hpc] at hs
      | loop =>
          simp only [EventModule.step, hpc] at hs
          exact h.work hpc hs
      | handler =>
          simp only [EventModule.step, hpc] at hs
          obtain ⟨x, xs, rfl⟩ := List.exists_cons_of_ne_nil (h.busy hpc)
          exact ⟨xs, h.back hpc hs⟩

theorem inv_reachable (h : m.Reachable) : ∃ xs, m.Inv xs :=
  h.invariant (fun m : EventModule H D => ∃ xs, m.Inv xs) ⟨[], inv_init⟩
    fun _ _ _ ⟨_, hi⟩ _ hs => hi.step hs

-- ============================================================================
-- First in, first out
-- ============================================================================

/-- `event_work` returns only when nothing is left, and then clears the tail. -/
theorem eventWork_returns (hs : m.step .next = some m') (hpc : m'.pc = .outside) :
    m'.queue.head = none ∧ m'.queue.tail = none := by
  cases hm : m.pc with
  | outside => simp [EventModule.step, hm] at hs
  | loop =>
      simp only [EventModule.step, hm, eventWork] at hs
      cases hhead : m.queue.head with
      | none =>
          simp only [hhead, Option.some.injEq] at hs
          subst hs
          exact ⟨hhead, rfl⟩
      | some i =>
          simp only [hhead, Option.map_eq_some_iff] at hs
          obtain ⟨n, -, rfl⟩ := hs
          cases hfind : m.handlers n.val.1 with
          | none =>
              simp only [hfind] at hpc
              exact EventPc.noConfusion (show EventPc.loop = .outside from hpc)
          | some f =>
              simp only [hfind] at hpc
              exact EventPc.noConfusion (show EventPc.handler = .outside from hpc)
  | handler =>
      simp only [EventModule.step, hm, eventReturn, Option.map_eq_some_iff] at hs
      obtain ⟨i, -, rfl⟩ := hs
      exact EventPc.noConfusion (show EventPc.loop = .outside from hpc)

/-- No node is missing where `event_work` looks for one. -/
theorem Inv.next {xs : List (Nat × EventId × D)} (h : m.Inv xs) (hpc : m.pc ≠ .outside) :
    ∃ m', m.step .next = some m' := by
  cases hm : m.pc with
  | outside => exact absurd hm hpc
  | loop =>
      simp only [EventModule.step, hm, eventWork]
      cases hhead : m.queue.head with
      | none => exact ⟨_, rfl⟩
      | some i =>
          have hrepr : m.queue.Repr xs := h.queue.resolve_right fun hq => by simp [hq.2.1] at hhead
          cases xs with
          | nil => exact absurd (hrepr.head_eq_none_iff.mpr rfl) (by simp [hhead])
          | cons x xs =>
              obtain ⟨hj, nxt, hnode⟩ := hrepr.head_cons
              obtain rfl : i = x.1 := Option.some.inj (hhead.symm.trans hj)
              simp only [hnode, Option.map_some]
              exact ⟨_, rfl⟩
  | handler =>
      obtain ⟨x, xs, rfl⟩ := List.exists_cons_of_ne_nil (h.busy hm)
      have hrepr := h.repr (by rw [hm]; decide)
      simp only [EventModule.step, hm, eventReturn, hrepr.head_cons.1, Option.map_some]
      exact ⟨_, rfl⟩

/-- After any calls, made by the main loop or by handlers: every event was taken off the
    queue in its turn and met the handler registered for it then; when `event_work`
    returns, head and tail are NULL; everywhere but at the head of its loop, the nodes
    from the head hold the events still to come, up to the tail; and `event_work` always
    goes on. -/
theorem eventQueue_fifo (h : m.Reachable) :
    AllRight m.trace ∧
      (∀ m', m.step .next = some m' → m'.pc = .outside →
        m'.queue.head = none ∧ m'.queue.tail = none) ∧
      (m.pc ≠ .loop → ∃ xs, m.queue.Repr xs ∧
        posted m.trace = taken m.trace ++ pending m.pc xs) ∧
      (m.pc ≠ .outside → ∃ m', m.step .next = some m') := by
  obtain ⟨xs, hinv⟩ := inv_reachable h
  exact ⟨hinv.right, fun m' hs hpc => eventWork_returns hs hpc,
    fun hpc => ⟨xs, hinv.repr hpc, hinv.order⟩, hinv.next⟩

/-- Two events are posted for id 7; the handler of the first one posts for id 8 and frees
    its own id. -/
theorem eventQueue_fifo_seven :
    ∃ m : EventModule Nat Nat, m.Reachable ∧ m.pc = .outside ∧
      m.trace = [.setHandler 7 1, .post (7, 10), .post (7, 11), .call 1 (7, 10), .post (8, 12),
        .freeId 7, .drop (7, 11), .drop (8, 12), .ret] ∧
      AllRight m.trace := by
  have hrun : ∃ m : EventModule Nat Nat, Run step (fun _ _ => true = true) init m ∧
      (m.pc = .outside ∧
        m.trace = [.setHandler 7 1, .post (7, 10), .post (7, 11), .call 1 (7, 10), .post (8, 12),
          .freeId 7, .drop (7, 11), .drop (8, 12), .ret] : Bool) = true :=
    exists_run_of_follow
      [.setHandler 7 1, .post 7 10, .post 7 11, .work, .next, .post 8 12, .freeId 7, .next,
        .next, .next, .next] (by decide)
  obtain ⟨m, hm, hp⟩ := hrun
  have hreach : m.Reachable := hm.mono fun _ _ _ => trivial
  rw [decide_eq_true_eq] at hp
  exact ⟨m, hreach, hp.1, hp.2, (eventQueue_fifo hreach).1⟩

-- ============================================================================
-- The queue of the system layer
-- ============================================================================

/-- HttpProxy.System keeps the events of the nodes in a list, the one in its handler
    among them. -/
structure Shows (m : EventModule Co Bool) (ev : Events) : Prop where
  handlers : ev.handlers = m.handlers
  queue : ∃ xs, m.Inv xs ∧ ev.queue = xs.map Prod.snd

section

variable {m m' : EventModule Co Bool} {ev : Events}

theorem Shows.post (h : m.Shows ev) (hpc : m.pc ≠ .loop) (eid : EventId) (d : Bool) :
    (m.eventPost eid d).Shows (ev.eventPost eid d) := by
  obtain ⟨xs, hinv, hqueue⟩ := h.queue
  refine ⟨h.handlers, _, hinv.post hpc eid d, ?_⟩
  show ev.queue ++ [(eid, d)] = _
  rw [hqueue, List.map_append]
  rfl

theorem Shows.setHandler (h : m.Shows ev) (eid : EventId) (x : Co) :
    (m.eventSetHandler eid x).Shows (ev.eventSetHandler eid x) := by
  obtain ⟨xs, hinv, hqueue⟩ := h.queue
  refine ⟨?_, xs, hinv.setHandler eid x, hqueue⟩
  show Function.update ev.handlers eid (some x) = _
  rw [h.handlers]
  rfl

theorem Shows.freeId (h : m.Shows ev) (eid : EventId) :
    (m.eventFreeId eid).Shows (ev.eventFreeId eid) := by
  obtain ⟨xs, hinv, hqueue⟩ := h.queue
  refine ⟨?_, xs, hinv.freeId eid, hqueue⟩
  show Function.update ev.handlers eid none = _
  rw [h.handlers]
  rfl

theorem Shows.enter (h : m.Shows ev) (hpc : m.pc = .outside) : Shows { m with pc := .loop } ev := by
  obtain ⟨xs, hinv, hqueue⟩ := h.queue
  exact ⟨h.handlers, xs, hinv.enter hpc, hqueue⟩

/-- Inside `event_work` the module is never stuck. -/
theorem Shows.next (h : m.Shows ev) (hpc : m.pc ≠ .outside) : ∃ m', m.step .next = some m' := by
  obtain ⟨xs, hinv, -⟩ := h.queue
  exact hinv.next hpc

/-- At the head of the loop: the list is empty, or its first event is called or dropped. -/
theorem Shows.work (h : m.Shows ev) (hpc : m.pc = .loop) (hs : m.eventWork = some m') :
    ev.queue = [] ∧ m'.pc = .outside ∧ m'.Shows ev ∨
      ∃ e es, ev.queue = e :: es ∧
        (ev.handlers e.1 = none ∧ m'.pc = .loop ∧ m'.Shows { ev with queue := es } ∨
          ∃ x, ev.handlers e.1 = some x ∧ m'.pc = .handler ∧ m'.Shows ev) := by
  obtain ⟨xs, hinv, hqueue⟩ := h.queue
  rw [eventWork] at hs
  cases hhead : m.queue.head with
  | none =>
      simp only [hhead, Option.some.injEq] at hs
      subst hs
      have hdone := hinv.done hpc hhead
      have hnil : xs = [] := by
        rcases hinv.queue with hrepr | ⟨-, -, hnil, -⟩
        · exact hrepr.head_eq_none_iff.mp hhead
        · exact hnil
      have hempty : ev.queue = [] := by rw [hqueue, hnil, List.map_nil]
      exact .inl ⟨hempty, rfl, h.handlers, [], hdone, hempty⟩
  | some i =>
      have hrepr : m.queue.Repr xs := hinv.queue.resolve_right fun hq => by simp [hq.2.1] at hhead
      cases xs with
      | nil => exact absurd (hrepr.head_eq_none_iff.mpr rfl) (by simp [hhead])
      | cons x xs =>
          obtain ⟨j, e⟩ := x
          obtain ⟨hj, nxt, hnode⟩ := hrepr.head_cons
          obtain rfl : i = j := Option.some.inj (hhead.symm.trans hj)
          simp only [hhead, hnode, Option.map_some, Option.some.injEq] at hs
          refine .inr ⟨e, xs.map Prod.snd, hqueue, ?_⟩
          cases hfind : m.handlers e.1 with
          | none =>
              simp only [hfind] at hs
              subst hs
              exact .inl ⟨(congrFun h.handlers e.1).trans hfind, hpc, h.handlers, xs,
                hinv.drop hpc hrepr hfind, rfl⟩
          | some f =>
              simp only [hfind] at hs
              subst hs
              exact .inr ⟨f, (congrFun h.handlers e.1).trans hfind, rfl, h.handlers, _,
                hinv.call hpc hrepr hfind, hqueue⟩

/-- The handler returns, and the list loses its first event. -/
theorem Shows.back (h : m.Shows ev) (hpc : m.pc = .handler) (hs : m.eventReturn = some m') :
    m'.Shows { ev with queue := ev.queue.tail } := by
  obtain ⟨xs, hinv, hqueue⟩ := h.queue
  obtain ⟨⟨i, e⟩, xs, rfl⟩ := List.exists_cons_of_ne_nil (hinv.busy hpc)
  have hback := hinv.back hpc hs
  have hrepr := hinv.repr (by rw [hpc]; decide)
  rw [eventReturn, hrepr.head_cons.1, Option.map_some, Option.some.injEq] at hs
  subst hs
  exact ⟨h.handlers, xs, hback, by rw [hqueue]; rfl⟩

end

end EventModule

end HttpProxy
