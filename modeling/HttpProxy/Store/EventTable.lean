/-
  HttpProxy.Store.EventTable

  The handlers of core/event.c in memory: a table of uthash with the allocated
  `struct handler_table`.  `EventStore` runs like `EventModule`, which has the handlers
  as a function of the event id, and is `none` where it would use freed memory.
-/

import HttpProxy.Dispatch.EventQueue
import HttpProxy.Lib.KeyTable

namespace HttpProxy

open Lib

/-- `struct handler_table` -/
structure HandlerTable (H : Type) where
  eid : EventId
  handler : H

/-- `h->handler = handler; h->data = data;` -/
def HandlerTable.set {H : Type} (e : HandlerTable H) (f : H) : HandlerTable H :=
  { e with handler := f }

theorem HandlerTable.set_eid {H : Type} (f : H) (e : HandlerTable H) : (e.set f).eid = e.eid := rfl

/-- `HASH_FCN` on an event id. -/
def hashEid (eid : EventId) : Nat := hashWord eid.toNat

/-- A call of the module; `mem_alloc` returns `a` if it is called. -/
inductive EventCmd (H D : Type) where
  | call (a : Nat) (c : EventCall H D)
  /-- event_module_done behind event_work -/
  | done

/-- The static variables of core/event.c with the table in memory. -/
structure EventStore (H D : Type) where
  handlers : KeyTable EventId (HandlerTable H)
  queue : LinkedQueue (EventId × D)
  pc : EventPc
  trace : List (EventAct H D)

-- ============================================================================
-- The functions
-- ============================================================================

namespace EventStore

variable {H D : Type}

def init : EventStore H D where
  handlers := .init
  queue := .empty
  pc := .outside
  trace := []

def log (s : EventStore H D) (a : EventAct H D) : EventStore H D :=
  { s with trace := s.trace ++ [a] }

/-- `HASH_FIND(hh, handlers, &eid, sizeof(event_id), h)` -/
def hashFind (s : EventStore H D) (eid : EventId) : Option (KeySlot EventId) :=
  s.handlers.find hashEid eid

/-- `event_set_handler` -/
def eventSetHandler (s : EventStore H D) (a : Nat) (eid : EventId) (f : H) :
    Option (EventStore H D) :=
  match s.hashFind eid with
  | none =>
      some ({ s with handlers := s.handlers.add hashEid a eid ⟨eid, f⟩ }.log (.setHandler eid f))
  | some h => do
      let e ← s.handlers.heap h.addr
      let handlers ← s.handlers.write h.addr (e.set f)
      return { s with handlers }.log (.setHandler eid f)

/-- `event_free_id` -/
def eventFreeId (s : EventStore H D) (eid : EventId) : Option (EventStore H D) :=
  match s.hashFind eid with
  | none => some (s.log (.freeId eid))
  | some h => do
      let handlers ← (s.handlers.unlink hashEid h).free h.addr
      return { s with handlers }.log (.freeId eid)

/-- `event_work` at `while (head)`, up to the call of the handler. -/
def eventWork (s : EventStore H D) : Option (EventStore H D) :=
  match s.queue.head with
  | none => some ({ s with queue := s.queue.clearTail, pc := .outside }.log .ret)
  | some i => do
      let n ← s.queue.nodes i
      match s.hashFind n.val.1 with
      | none => some ({ s with queue := s.queue.shift i }.log (.drop n.val))
      | some h => do
          let e ← s.handlers.heap h.addr
          some ({ s with pc := .handler }.log (.call e.handler n.val))

/-- `event_module_done` behind `event_work`. -/
def eventModuleDone (s : EventStore H D) : Option (EventStore H D) := do
  let handlers ← s.handlers.removeAll hashEid s.handlers.table.items
  return { s with handlers }

def step (s : EventStore H D) : EventCmd H D → Option (EventStore H D)
  | .call _ (.post eid data) =>
      if s.pc = .loop then none
      else some ({ s with queue := s.queue.append (eid, data) }.log (.post (eid, data)))
  | .call a (.setHandler eid f) => if s.pc = .loop then none else s.eventSetHandler a eid f
  | .call _ (.freeId eid) => if s.pc = .loop then none else s.eventFreeId eid
  | .call _ .work => if s.pc = .outside then some { s with pc := .loop } else none
  | .call _ .next =>
      match s.pc with
      | .outside => none
      | .loop => s.eventWork
      | .handler => s.queue.head.map fun i => { s with queue := s.queue.shift i, pc := .loop }
  | .done => if s.pc = .outside then s.eventModuleDone else none

end EventStore

namespace EventModule

variable {H D : Type}

/-- The same on the module with the handlers as a function. -/
def exec (m : EventModule H D) : EventCmd H D → Option (EventModule H D)
  | .call _ c => m.step c
  | .done => if m.pc = .outside then some { m with handlers := fun _ => none } else none

/-- The module with its handlers in memory. -/
def inMemory (m : EventModule H D) (t : KeyTable EventId (HandlerTable H)) : EventStore H D where
  handlers := t
  queue := m.queue
  pc := m.pc
  trace := m.trace

end EventModule

-- ============================================================================
-- The two levels
-- ============================================================================

namespace EventStore

variable {H D : Type}

/-- The structures `ents` hold the handlers of `m`, and nothing else is allocated. -/
structure Shows (t : KeyTable EventId (HandlerTable H)) (m : EventModule H D)
    (ents : List (Nat × HandlerTable H)) : Prop where
  holds : t.Holds hashEid HandlerTable.eid ents []
  table : ∀ eid f, m.handlers eid = some f ↔ ∃ e ∈ ents, e.2.eid = eid ∧ e.2.handler = f

variable {t : KeyTable EventId (HandlerTable H)} {m m' : EventModule H D}
  {ents : List (Nat × HandlerTable H)} {eid : EventId}

theorem shows_init : Shows .init (EventModule.init : EventModule H D) [] where
  holds := KeyTable.holds_init
  table eid f := by simp [EventModule.init]

/-- Only the handlers matter. -/
theorem Shows.congr (h : Shows t m ents) (hhandlers : m'.handlers = m.handlers) :
    Shows t m' ents :=
  ⟨h.holds, fun eid f => by rw [hhandlers, h.table]⟩

theorem Shows.find (h : Shows t m ents) (eid : EventId) :
    (t.find hashEid eid = none ∧ m.handlers eid = none ∧ ∀ e ∈ ents, e.2.eid ≠ eid) ∨
      ∃ e ∈ ents, e.2.eid = eid ∧ t.find hashEid eid = some (KeyTable.slotOf HandlerTable.eid e) ∧
        t.heap e.1 = some e.2 ∧ m.handlers eid = some e.2.handler := by
  rcases h.holds.find_spec eid with ⟨hfind, -, hnone⟩ | ⟨e, he, hkey, hfind, hread, -⟩
  · refine .inl ⟨hfind, ?_, hnone⟩
    rw [Option.eq_none_iff_forall_ne_some]
    intro f hf
    obtain ⟨e, he, hkey, -⟩ := (h.table eid f).mp hf
    exact hnone e he hkey
  · exact .inr ⟨e, he, hkey, hfind, hread, (h.table eid _).mpr ⟨e, he, hkey, rfl⟩⟩

-- ============================================================================
-- event_set_handler
-- ============================================================================

theorem Shows.setHandler (h : Shows t m ents) {a : Nat} (hfree : t.heap a = none) (eid : EventId)
    (f : H) : ∃ t' ents', (m.inMemory t).eventSetHandler a eid f =
        some ((m.eventSetHandler eid f).inMemory t') ∧
      Shows t' (m.eventSetHandler eid f) ents' := by
  rcases h.find eid with ⟨hfind, -, hnone⟩ | ⟨e, he, rfl, hfind, hread, -⟩
  · refine ⟨_, _, ?_, h.holds.add (v := ⟨eid, f⟩) hfree hnone, ?_⟩
    · simp only [eventSetHandler, hashFind, EventModule.inMemory, hfind]
      rfl
    · intro eid' g
      show Function.update m.handlers eid (some f) eid' = some g ↔ _
      simp only [List.mem_append, List.mem_singleton, or_and_right, exists_or, exists_eq_left]
      by_cases heq : eid' = eid
      · subst heq
        rw [Function.update_self, Option.some.injEq]
        constructor
        · rintro rfl
          exact .inr ⟨rfl, rfl⟩
        · rintro (⟨x, hx, hkey, -⟩ | ⟨-, rfl⟩)
          · exact absurd hkey (hnone x hx)
          · rfl
      · rw [Function.update_of_ne heq, h.table]
        constructor
        · exact .inl
        · rintro (hx | ⟨hkey, -⟩)
          · exact hx
          · exact absurd hkey.symm heq
  · have heid (x : Nat × HandlerTable H) : (KeyTable.rewrite HandlerTable.eid e.2.eid
        (·.set f) x).2.eid = x.2.eid :=
      KeyTable.rewrite_key HandlerTable.eid _ (HandlerTable.set_eid f) x
    obtain ⟨t', hwrite, ht'⟩ := h.holds.write he (HandlerTable.set_eid f)
    refine ⟨t', _, ?_, ht', ?_⟩
    · simp only [eventSetHandler, hashFind, EventModule.inMemory, hfind, KeyTable.slotOf, hread,
        Option.bind_eq_bind, Option.bind_some, hwrite]
      rfl
    · intro eid' g
      show Function.update m.handlers e.2.eid (some f) eid' = some g ↔ _
      simp only [List.mem_map]
      by_cases heq : eid' = e.2.eid
      · subst heq
        rw [Function.update_self, Option.some.injEq]
        constructor
        · rintro rfl
          refine ⟨_, ⟨e, he, rfl⟩, ?_, ?_⟩
          · exact heid e
          · rw [KeyTable.rewrite, if_pos rfl]
            rfl
        · rintro ⟨_, ⟨x, -, rfl⟩, hkey, hg⟩
          rw [heid] at hkey
          rw [KeyTable.rewrite, if_pos hkey] at hg
          exact hg
      · rw [Function.update_of_ne heq, h.table]
        constructor
        · rintro ⟨x, hx, hkey, hg⟩
          have hother : KeyTable.rewrite HandlerTable.eid e.2.eid
              (·.set f) x = x :=
            if_neg fun hxe => heq (hkey.symm.trans hxe)
          exact ⟨x, ⟨x, hx, hother⟩, hkey, hg⟩
        · rintro ⟨_, ⟨x, hx, rfl⟩, hkey, hg⟩
          rw [heid] at hkey
          rw [KeyTable.rewrite, if_neg fun hxe => heq (hkey.symm.trans hxe)] at hg
          exact ⟨x, hx, hkey, hg⟩

-- ============================================================================
-- event_free_id and event_module_done
-- ============================================================================

theorem Shows.freeId (h : Shows t m ents) (eid : EventId) :
    ∃ t' ents', (m.inMemory t).eventFreeId eid = some ((m.eventFreeId eid).inMemory t') ∧
      Shows t' (m.eventFreeId eid) ents' := by
  rcases h.find eid with ⟨hfind, hhandler, hnone⟩ | ⟨e, he, rfl, hfind, -, -⟩
  · refine ⟨t, ents, ?_, h.congr ?_⟩
    · simp only [eventFreeId, hashFind, EventModule.inMemory, hfind]
      rfl
    · show Function.update m.handlers eid none = m.handlers
      rw [← hhandler, Function.update_eq_self]
  · obtain ⟨t', hremove, ht'⟩ := h.holds.remove he
    refine ⟨t', _, ?_, ht', ?_⟩
    · have haddr : (KeyTable.slotOf HandlerTable.eid e).addr = e.1 := rfl
      simp only [eventFreeId, hashFind, EventModule.inMemory, hfind, haddr, hremove]
      rfl
    · intro eid' g
      show Function.update m.handlers e.2.eid none eid' = some g ↔ _
      simp only [KeyTable.mem_without]
      by_cases heq : eid' = e.2.eid
      · subst heq
        rw [Function.update_self]
        constructor
        · intro hnone
          exact absurd hnone (by simp)
        · rintro ⟨x, ⟨-, hne⟩, hkey, -⟩
          exact absurd hkey hne
      · rw [Function.update_of_ne heq, h.table]
        constructor
        · rintro ⟨x, hx, rfl, hg⟩
          exact ⟨x, ⟨hx, heq⟩, rfl, hg⟩
        · rintro ⟨x, ⟨hx, -⟩, hkey, hg⟩
          exact ⟨x, hx, hkey, hg⟩

theorem Shows.done (h : Shows t m ents) :
    ∃ t', (m.inMemory t).eventModuleDone =
        some (EventModule.inMemory { m with handlers := fun _ => none } t') ∧
      Shows t' { m with handlers := fun _ => none } [] := by
  obtain ⟨t', hall, ht'⟩ := h.holds.removeAll
  refine ⟨t', ?_, ht', fun eid f => by simp⟩
  simp only [eventModuleDone, EventModule.inMemory, hall]
  rfl

-- ============================================================================
-- event_work
-- ============================================================================

/-- The head of the loop finds the handler that the function gives. -/
theorem Shows.work (h : Shows t m ents) (hv : m.eventWork = some m') :
    (m.inMemory t).eventWork = some (m'.inMemory t) ∧ Shows t m' ents := by
  rw [EventModule.eventWork] at hv
  cases hhead : m.queue.head with
  | none =>
      simp only [hhead, Option.some.injEq] at hv
      subst hv
      refine ⟨?_, h.congr rfl⟩
      simp only [eventWork, EventModule.inMemory, hhead]
      rfl
  | some i =>
      simp only [hhead] at hv
      obtain ⟨n, hn, rfl⟩ := Option.map_eq_some_iff.mp hv
      rcases h.find n.val.1 with ⟨hfind, hhandler, -⟩ | ⟨e, -, -, hfind, hread, hhandler⟩
      · simp only [hhandler]
        refine ⟨?_, h.congr rfl⟩
        simp only [eventWork, hashFind, EventModule.inMemory, hhead, hn, Option.bind_eq_bind,
          Option.bind_some, hfind]
        rfl
      · simp only [hhandler]
        refine ⟨?_, h.congr rfl⟩
        simp only [eventWork, hashFind, EventModule.inMemory, hhead, hn, Option.bind_eq_bind,
          Option.bind_some, hfind, KeyTable.slotOf, hread]
        rfl

-- ============================================================================
-- Every call
-- ============================================================================

/-- `mem_alloc` returns memory that is not in use. -/
def allocOk (x : EventStore H D × EventModule H D) : EventCmd H D → Bool
  | .call a _ => (x.1.handlers.heap a).isNone
  | .done => true

/-- Where the module makes a step, the one in memory makes it, too. -/
theorem Shows.step {c : EventCmd H D} (h : Shows t m ents)
    (halloc : allocOk (m.inMemory t, m) c = true) (hv : m.exec c = some m') :
    ∃ t' ents', (m.inMemory t).step c = some (m'.inMemory t') ∧ Shows t' m' ents' := by
  cases c with
  | done =>
      obtain ⟨hpc, heq⟩ := Option.ite_none_right_eq_some.mp hv
      obtain rfl := Option.some.inj heq
      obtain ⟨t', hdone, ht'⟩ := h.done
      exact ⟨t', [], (if_pos hpc).trans hdone, ht'⟩
  | call a c =>
      cases c with
      | post eid data =>
          obtain ⟨hpc, heq⟩ := Option.ite_none_left_eq_some.mp hv
          obtain rfl := Option.some.inj heq
          exact ⟨t, ents, if_neg hpc, h.congr rfl⟩
      | setHandler eid f =>
          obtain ⟨hpc, heq⟩ := Option.ite_none_left_eq_some.mp hv
          obtain rfl := Option.some.inj heq
          obtain ⟨t', ents', hset, ht'⟩ := h.setHandler (Option.isNone_iff_eq_none.mp halloc) eid f
          exact ⟨t', ents', (if_neg hpc).trans hset, ht'⟩
      | freeId eid =>
          obtain ⟨hpc, heq⟩ := Option.ite_none_left_eq_some.mp hv
          obtain rfl := Option.some.inj heq
          obtain ⟨t', ents', hfree, ht'⟩ := h.freeId eid
          exact ⟨t', ents', (if_neg hpc).trans hfree, ht'⟩
      | work =>
          obtain ⟨hpc, heq⟩ := Option.ite_none_right_eq_some.mp hv
          obtain rfl := Option.some.inj heq
          exact ⟨t, ents, if_pos hpc, h.congr rfl⟩
      | next =>
          cases hpc : m.pc with
          | outside => simp [EventModule.exec, EventModule.step, hpc] at hv
          | loop =>
              simp only [EventModule.exec, EventModule.step, hpc] at hv
              obtain ⟨hwork, ht'⟩ := h.work hv
              refine ⟨t, ents, ?_, ht'⟩
              rw [EventStore.step, show (m.inMemory t).pc = .loop from hpc]
              exact hwork
          | handler =>
              simp only [EventModule.exec, EventModule.step, hpc] at hv
              obtain ⟨i, hhead, rfl⟩ := Option.map_eq_some_iff.mp hv
              refine ⟨t, ents, ?_, h.congr rfl⟩
              rw [EventStore.step, show (m.inMemory t).pc = .handler from hpc,
                show (m.inMemory t).queue.head = some i from hhead]
              rfl

/-- One call on both. -/
def both (x : EventStore H D × EventModule H D) (c : EventCmd H D) :
    Option (EventStore H D × EventModule H D) := do
  let s ← x.1.step c
  let m ← x.2.exec c
  return (s, m)

theorem shows_of_run {x : EventStore H D × EventModule H D}
    (h : Run both (fun x c => allocOk x c) (init, EventModule.init) x) :
    ∃ t ents, x.1 = x.2.inMemory t ∧ Shows t x.2 ents := by
  apply h.invariant (fun x => ∃ t ents, x.1 = x.2.inMemory t ∧ Shows t x.2 ents)
  · exact ⟨.init, [], rfl, shows_init⟩
  · rintro ⟨s, m⟩ x' c ⟨t, ents, hs, hx⟩ halloc hboth
    obtain rfl : s = m.inMemory t := hs
    obtain ⟨s', hstep, hboth⟩ := Option.bind_eq_some_iff.mp hboth
    obtain ⟨m', hexec, hboth⟩ := Option.bind_eq_some_iff.mp hboth
    cases hboth
    obtain ⟨t', ents', hstep', hx'⟩ := hx.step halloc hexec
    rw [hstep] at hstep'
    exact ⟨t', ents', Option.some.inj hstep', hx'⟩

/-- Whatever the handlers of the events call: where the module with the handlers as a
    function goes on, the one in memory goes on, too, and calls the same handlers for the
    same events; no freed `struct handler_table` is used, none is freed twice, and those
    that are allocated are in the table, once. -/
theorem eventTable_stored {x : EventStore H D × EventModule H D}
    (h : Run both (fun x c => allocOk x c) (init, EventModule.init) x) :
    (∀ c m', allocOk x c = true → x.2.exec c = some m' → ∃ s', x.1.step c = some s') ∧
      x.1.trace = x.2.trace ∧
      (∀ eid, ((x.1.hashFind eid).bind fun h => x.1.handlers.heap h.addr).map (·.handler) =
        x.2.handlers eid) ∧
      x.1.handlers.addrs.Nodup ∧
      ∀ a, (x.1.handlers.heap a).isSome = true ↔ a ∈ x.1.handlers.addrs := by
  obtain ⟨s, m⟩ := x
  obtain ⟨t, ents, hs, hshows⟩ := shows_of_run h
  obtain rfl : s = m.inMemory t := hs
  have haddrs : (m.inMemory t).handlers.addrs = (ents ++ []).map Prod.fst := by
    rw [List.append_nil]
    exact hshows.holds.addrs_eq
  rw [haddrs]
  refine ⟨?_, rfl, ?_, hshows.holds.addrs, fun a => hshows.holds.isSome_iff⟩
  · intro c m' halloc hm'
    obtain ⟨t', _, hstep, -⟩ := hshows.step halloc hm'
    exact ⟨_, hstep⟩
  · intro eid
    rcases hshows.find eid with ⟨hfind, hhandler, -⟩ | ⟨e, -, -, hfind, hread, hhandler⟩
    · simp only [hashFind, EventModule.inMemory, hfind]
      exact hhandler.symm
    · simp only [hashFind, EventModule.inMemory, hfind, Option.bind_some, KeyTable.slotOf, hread]
      exact hhandler.symm

/-- An event whose id is registered twice and freed before it is taken off. -/
theorem eventTable_stored_free : ∃ x : EventStore Nat Nat × EventModule Nat Nat,
    Run both (fun x c => allocOk x c) (init, EventModule.init) x ∧
      x.1.trace = [.setHandler 3 8, .setHandler 3 9, .post (3, 1), .freeId 3, .drop (3, 1)] ∧
        x.1.handlers.addrs = [] ∧ x.2.trace = x.1.trace := by
  have hrun : (follow both allocOk (init, (EventModule.init : EventModule Nat Nat))
      [.call 5 (.setHandler 3 8), .call 6 (.setHandler 3 9), .call 6 (.post 3 1),
        .call 6 (.freeId 3), .call 6 .work, .call 6 .next]).any
      (fun x => x.1.trace = [.setHandler 3 8, .setHandler 3 9, .post (3, 1), .freeId 3,
        .drop (3, 1)] && x.1.handlers.addrs = []) = true := by
    decide +kernel
  obtain ⟨x, hx, hp⟩ := exists_run_of_follow _ hrun
  obtain ⟨htrace, haddrs⟩ := Bool.and_eq_true_iff.mp hp
  exact ⟨x, hx, of_decide_eq_true htrace, of_decide_eq_true haddrs,
    (eventTable_stored hx).2.1.symm⟩

end EventStore

end HttpProxy
