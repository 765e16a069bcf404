/-
  HttpProxy.Store.FreePool

  The free connections of core/conn.c: for each endpoint a hash entry that embeds the
  sentinel of a doubly linked list of `struct conn_pool_ent`, and in each pooled
  connection the pointer `apool` back to its node.

  `exec` runs one call on the pointers themselves; it has no result where the code
  would follow a link to memory that is not allocated.  `poolStep` is what the call
  means for the connections that are free, newest first.  `Holds` connects the two
  (`freePool_holds`).
-/

import HttpProxy.Core.ConnIo
import HttpProxy.Lib.DoublyLinked

namespace HttpProxy

open Lib

-- ============================================================================
-- State
-- ============================================================================

/-- The address of a `struct conn_pool_ent`: the `head` within the hash entry of an
    endpoint, or an allocated node. -/
inductive EntPtr (E : Type) where
  | head (ep : E)
  | ent (i : Nat)
deriving DecidableEq

/-- What the pool reads and sets of a `struct conn`.  `refs` is its reference count, 0
    when it has been freed; `registered` says that its descriptor is in the table of
    net_pull.c, and `idle` that its read handler there is
    `conn_notice_free_connection_closed`. -/
structure PoolConn (E : Type) where
  ep : E
  stat : ConnStat
  apool : Option (EntPtr E)
  refs : Nat
  registered : Bool
  idle : Bool

/-- `free_pool` with the memory behind it.  The hash entry of an endpoint exists when
    its `head` is allocated; the `conn` of a `head` is never used. -/
structure FreePool (E : Type) where
  mainStat : MainStat
  ents : DHeap (EntPtr E) Nat
  fresh : Nat
  conns : Nat → PoolConn E

namespace FreePool

variable {E : Type} [DecidableEq E]

/-- The fields of one connection change. -/
def setConn (s : FreePool E) (c : Nat) (conn : PoolConn E) : FreePool E :=
  { s with conns := Function.update s.conns c conn }

-- ============================================================================
-- core/conn.c
-- ============================================================================

/-- `conn_addrpool_add` -/
def connAddrpoolAdd (s : FreePool E) (c : Nat) : Option (FreePool E) := do
  let conn := s.conns c
  let elem : EntPtr E := .ent s.fresh
  let s := s.setConn c
    { conn with refs := conn.refs + 1, stat := .free, apool := some elem }
  match s.ents (.head conn.ep) with
  | none =>
      let ents := Function.update s.ents elem
        (some { val := c, prev := some (.head conn.ep), next := none })
      return { s with
        ents := Function.update ents (.head conn.ep)
          (some { val := 0, prev := none, next := some elem })
        fresh := s.fresh + 1 }
  | some _ => do
      let ents ← s.ents.pushFront (.head conn.ep) elem c
      return { s with ents, fresh := s.fresh + 1 }

/-- `conn_close` -/
def connClose (s : FreePool E) (c : Nat) : FreePool E :=
  if (s.conns c).stat = .closed then s
  else s.setConn c { s.conns c with stat := .closed, registered := false, idle := false }

/-- `conn_done` -/
def connDone (s : FreePool E) (c : Nat) : FreePool E :=
  if (s.conns c).stat ≠ .closed then s.connClose c
  else s.setConn c { s.conns c with registered := false, idle := false }

/-- `mem_decref(conn, conn_done)` -/
def memDecref (s : FreePool E) (c : Nat) : FreePool E :=
  let s := s.setConn c { s.conns c with refs := (s.conns c).refs - 1 }
  if (s.conns c).refs = 0 then s.connDone c else s

/-- `conn_addrpool_del`: `apool` keeps the address of the node that is freed. -/
def connAddrpoolDel (s : FreePool E) (c : Nat) : Option (FreePool E) :=
  match (s.conns c).apool with
  | none => some s
  | some elem => do
      let ents ← s.ents.unlink elem
      return memDecref { s with ents } c

/-- `conn_addrpool_try_get_and_del` -/
def connAddrpoolTryGetAndDel (s : FreePool E) (ep : E) : Option (Option Nat × FreePool E) :=
  match s.ents (.head ep) with
  | none => some (none, s)
  | some h =>
      if h.next = none then some (none, s)
      else do
        -- Delete the first item
        let (c, ents) ← s.ents.popFront (.head ep)
        return (some c, setConn { s with ents } c { s.conns c with apool := none })

/-- `conn_get_by_endpoint` as far as the pool goes; without a hit it goes on to connect. -/
def connGetByEndpoint (s : FreePool E) (ep : E) : Option (Option Nat × FreePool E) := do
  let (conn, s) ← s.connAddrpoolTryGetAndDel ep
  match conn with
  | none => return (none, s)
  | some c => return (some c, s.setConn c { s.conns c with stat := .used, idle := false })

/-- `conn_free` -/
def connFree (s : FreePool E) (c : Nat) : Option (FreePool E) :=
  if (s.conns c).stat = .closed ∨ s.mainStat = .exiting then some s
  else do
    let s := s.setConn c { s.conns c with stat := .free }
    let s ← s.connAddrpoolAdd c
    return s.setConn c { s.conns c with idle := (s.conns c).registered }

/-- An event on an idle connection: net_pull_work takes the handlers out, calls
    `conn_err_handler` when the event is an error (`err`) and that handler is the one
    registered (`errHandler`), and then `conn_notice_free_connection_closed`. -/
def connNoticeFreeConnectionClosed (s : FreePool E) (c : Nat) (err errHandler : Bool) :
    Option (FreePool E) :=
  let conn := { s.conns c with idle := false }
  let s := s.setConn c (if err && errHandler then { conn with stat := .closed } else conn)
  if err then (s.connClose c).connAddrpoolDel c
  else
    -- Something strange happened
    some (s.setConn c { s.conns c with idle := (s.conns c).registered })

-- ============================================================================
-- Calls
-- ============================================================================

/-- The calls on the pool, and what the owners of a connection that is not in the pool
    do with it meanwhile. -/
inductive Op (E : Type) where
  | free (c : Nat)
  | get (ep : E)
  | idleEvent (c : Nat) (err errHandler : Bool)
  | incref (c : Nat)
  | decref (c : Nat)
  | close (c : Nat)
  | exit

/-- Run a call: the connection it returns, and the state behind it. -/
def exec (s : FreePool E) : Op E → Option (Option Nat × FreePool E)
  | .free c => (s.connFree c).map fun s => (none, s)
  | .get ep => s.connGetByEndpoint ep
  | .idleEvent c err errHandler =>
      (s.connNoticeFreeConnectionClosed c err errHandler).map fun s => (none, s)
  | .incref c => some (none, s.setConn c { s.conns c with refs := (s.conns c).refs + 1 })
  | .decref c => some (none, s.memDecref c)
  | .close c => some (none, s.connClose c)
  | .exit => some (none, { s with mainStat := .exiting })

/-- The free connections of each endpoint, newest first. -/
abbrev Pool (E : Type) : Type := E → List Nat

/-- What a call does to the free connections.  `conn_free` leaves a closed connection
    and those that come when the proxy is exiting alone. -/
def poolStep (s : FreePool E) (pool : Pool E) : Op E → Pool E
  | .free c =>
      if (s.conns c).stat = .closed ∨ s.mainStat = .exiting then pool
      else Function.update pool (s.conns c).ep (c :: pool (s.conns c).ep)
  | .get ep => Function.update pool ep (pool ep).tail
  | .idleEvent c err _ =>
      if err then Function.update pool (s.conns c).ep ((pool (s.conns c).ep).erase c) else pool
  | _ => pool

/-- When a call is made: `conn_free` for a connection that is not in the pool, by an
    owner; the handler of an idle connection while it is set; and the owners of a
    connection keep away from the reference of the pool. -/
def Enabled (s : FreePool E) (pool : Pool E) : Op E → Prop
  | .free c => c ∉ pool (s.conns c).ep ∧ 0 < (s.conns c).refs
  | .get _ => True
  | .idleEvent c _ _ => (s.conns c).idle = true
  | .incref c => 0 < (s.conns c).refs
  | .decref c => (pool (s.conns c).ep).count c < (s.conns c).refs
  | .close c => c ∉ pool (s.conns c).ep
  | .exit => True

/-- No hash entry, no node, no handler yet. -/
def Fresh (s : FreePool E) : Prop :=
  (∀ p, s.ents p = none) ∧ ∀ c, (s.conns c).idle = false

/-- The states that sequences of calls lead to, with the connections that are free. -/
inductive Reached : FreePool E → Pool E → Prop where
  | start {s : FreePool E} : s.Fresh → Reached s fun _ => []
  | step {s s' : FreePool E} {pool : Pool E} {op : Op E} {r : Option Nat} :
      Reached s pool → s.Enabled pool op → s.exec op = some (r, s') →
      Reached s' (s.poolStep pool op)

-- ============================================================================
-- The invariant
-- ============================================================================

/-- The node of a pooled connection. -/
def entOf (s : FreePool E) (c : Nat) : EntPtr E :=
  (s.conns c).apool.getD (.head (s.conns c).ep)

/-- A connection in the pool: free, with a reference of the pool's own, and `apool` points
    to a node that points back. -/
structure InPool (s : FreePool E) (ep : E) (c : Nat) : Prop where
  ep : (s.conns c).ep = ep
  stat : (s.conns c).stat = .free
  refs : 0 < (s.conns c).refs
  node : ∃ i n, (s.conns c).apool = some (.ent i) ∧ s.ents (.ent i) = some n ∧ n.val = c

/-- The lists hold exactly the connections of `pool`. -/
structure Holds (s : FreePool E) (pool : Pool E) : Prop where
  empty : ∀ ep, s.ents (.head ep) = none → pool ep = []
  list : ∀ ep, s.ents (.head ep) ≠ none → s.ents.IsList (.head ep) ((pool ep).map s.entOf)
  conn : ∀ ep, ∀ c ∈ pool ep, s.InPool ep c
  owned : ∀ i n, s.ents (.ent i) = some n → i < s.fresh ∧
    n.val ∈ pool (s.conns n.val).ep ∧ (s.conns n.val).apool = some (.ent i)
  idle : ∀ c, (s.conns c).idle = true → c ∈ pool (s.conns c).ep

/-- What a call returns and does to the references: a hit hands over the newest free
    connection with the pool's reference, the notice of a closed one drops that. -/
def Answers (s : FreePool E) (pool : Pool E) (op : Op E) (r : Option Nat) (s' : FreePool E) :
    Prop :=
  match op with
  | .free c => ∀ x, (s'.conns x).refs = (s.conns x).refs +
      if x = c ∧ ¬ ((s.conns c).stat = .closed ∨ s.mainStat = .exiting) then 1 else 0
  | .get ep => r = (pool ep).head? ∧ (∀ x, (s'.conns x).refs = (s.conns x).refs) ∧
      ∀ c ∈ r, (s'.conns c).stat = .used ∧ (s'.conns c).apool = none ∧
        (s'.conns c).idle = false
  | .idleEvent c err _ => (err = true → (s'.conns c).stat = .closed) ∧
      ∀ x, (s.conns x).refs = (s'.conns x).refs + if x = c ∧ err = true then 1 else 0
  | _ => True

section

variable {s s' : FreePool E} {pool : Pool E} {ep ep' : E} {c x : Nat} {op : Op E}

omit [DecidableEq E] in
theorem Fresh.holds (h : s.Fresh) : s.Holds fun _ => [] where
  empty _ _ := rfl
  list ep hne := absurd (h.1 (.head ep)) hne
  conn _ c hc := absurd hc List.not_mem_nil
  owned i n hn := by
    rw [h.1] at hn
    exact absurd hn (by simp)
  idle c hc := by
    rw [h.2] at hc
    exact absurd hc (by simp)

omit [DecidableEq E] in
theorem Holds.nodup (h : s.Holds pool) (ep : E) : (pool ep).Nodup := by
  cases hhead : s.ents (.head ep) with
  | none =>
      rw [h.empty ep hhead]
      exact List.nodup_nil
  | some n =>
      have hlist := h.list ep (by simp [hhead])
      exact (List.nodup_cons.mp hlist.nodup).2.of_map s.entOf

omit [DecidableEq E] in
theorem InPool.entOf_node (h : s.InPool ep c) :
    ∃ i n, s.entOf c = .ent i ∧ s.ents (.ent i) = some n ∧ n.val = c := by
  obtain ⟨i, n, hapool, hn, hval⟩ := h.node
  exact ⟨i, n, by rw [entOf, hapool, Option.getD_some], hn, hval⟩

omit [DecidableEq E] in
/-- Pooled connections have different nodes. -/
theorem Holds.entOf_inj (h : s.Holds pool) (hc : c ∈ pool ep) (hx : x ∈ pool ep')
    (heq : s.entOf c = s.entOf x) : c = x := by
  obtain ⟨i, n, hi, hn, hval⟩ := (h.conn ep c hc).entOf_node
  obtain ⟨j, k, hj, hk, hval'⟩ := (h.conn ep' x hx).entOf_node
  rw [hi, hj, EntPtr.ent.injEq] at heq
  subst heq
  rw [hn, Option.some.injEq] at hk
  subst hk
  exact hval.symm.trans hval'

omit [DecidableEq E] in
/-- The list of another endpoint does not notice a change at this one. -/
theorem Holds.other_list (h : s.Holds pool) (hne : ep' ≠ ep) {m : DHeap (EntPtr E) Nat}
    {a : EntPtr E} (ha : ∀ ep, a ≠ .head ep) (hfree : ∀ x ∈ pool ep', s.entOf x ≠ a)
    (hframe : ∀ p, p ≠ a → p ∉ .head ep :: (pool ep).map s.entOf → m p = s.ents p) :
    m (.head ep') = s.ents (.head ep') ∧
      (s.ents (.head ep') ≠ none → m.IsList (.head ep') ((pool ep').map s.entOf)) := by
  have hhead : m (.head ep') = s.ents (.head ep') := by
    apply hframe _ (ha ep').symm
    rw [List.mem_cons, List.mem_map]
    rintro (heq | ⟨c, hc, heq⟩)
    · exact hne (EntPtr.head.inj heq)
    · obtain ⟨i, n, hi, -⟩ := (h.conn ep c hc).entOf_node
      rw [hi] at heq
      exact absurd heq (by simp)
  refine ⟨hhead, fun hsome => (h.list ep' hsome).congr fun p hp => ?_⟩
  rcases List.mem_cons.mp hp with rfl | hp
  · exact hhead
  · obtain ⟨x, hx, rfl⟩ := List.mem_map.mp hp
    apply hframe _ (hfree x hx)
    obtain ⟨i, n, hi, -, -⟩ := (h.conn ep' x hx).entOf_node
    rw [List.mem_cons, List.mem_map]
    rintro (heq | ⟨c, hc, heq⟩)
    · rw [hi] at heq
      exact absurd heq (by simp)
    · have hcx := h.entOf_inj hc hx heq
      subst hcx
      exact hne ((h.conn ep' c hx).ep.symm.trans (h.conn ep c hc).ep)

omit [DecidableEq E] in
/-- A node with the value it had. -/
theorem node_of_map {m m' : DHeap (EntPtr E) Nat} {p : EntPtr E} {n : DNode (EntPtr E) Nat}
    (h : (m' p).map (·.val) = (m p).map (·.val)) (hn : m p = some n) :
    ∃ n', m' p = some n' ∧ n'.val = n.val := by
  rw [hn, Option.map_some, Option.map_eq_some_iff] at h
  exact h

omit [DecidableEq E] in
theorem setConn_conns {conn : PoolConn E} (hne : x ≠ c) :
    (s.setConn c conn).conns x = s.conns x := by
  show Function.update s.conns c conn x = s.conns x
  exact Function.update_of_ne hne conn s.conns

omit [DecidableEq E] in
@[simp] theorem setConn_self {conn : PoolConn E} : (s.setConn c conn).conns c = conn := by
  show Function.update s.conns c conn c = conn
  exact Function.update_self c conn s.conns

omit [DecidableEq E] in
/-- A pooled connection that is as it was, whose node has the value it had. -/
theorem InPool.congr (h : s.InPool ep x) (hconn : s'.conns x = s.conns x)
    (hval : (s'.ents (s.entOf x)).map (·.val) = (s.ents (s.entOf x)).map (·.val)) :
    s'.InPool ep x := by
  obtain ⟨i, n, hap, hn, hx⟩ := h.node
  have hent : s.entOf x = .ent i := by rw [entOf, hap, Option.getD_some]
  rw [hent] at hval
  obtain ⟨n', hn', hval'⟩ := node_of_map hval hn
  constructor
  · rw [hconn]
    exact h.ep
  · rw [hconn]
    exact h.stat
  · rw [hconn]
    exact h.refs
  · rw [hconn]
    exact ⟨i, n', hap, hn', hval'.trans hx⟩

/-- An endpoint without a list has no connection, where the list of one endpoint has changed. -/
theorem Holds.empty_update (h : s.Holds pool) {m : DHeap (EntPtr E) Nat} {l : List (EntPtr E)}
    {cs : List Nat} (hlist : m.IsList (.head ep) l)
    (hother : ∀ ep', ep' ≠ ep → m (.head ep') = s.ents (.head ep'))
    (hnone : m (.head ep') = none) : Function.update pool ep cs ep' = [] := by
  by_cases hne : ep' = ep
  · obtain ⟨n, hn, -⟩ := hlist.seg
    rw [← hne, hnone] at hn
    exact absurd hn (by simp)
  · rw [Function.update_of_ne hne]
    rw [hother ep' hne] at hnone
    exact h.empty ep' hnone

-- ============================================================================
-- Adding
-- ============================================================================

/-- The heap with a new node for `c` in front of the list. -/
structure Added (s : FreePool E) (pool : Pool E) (c : Nat) (m : DHeap (EntPtr E) Nat) : Prop where
  list : m.IsList (.head (s.conns c).ep) (.ent s.fresh :: (pool (s.conns c).ep).map s.entOf)
  new : ∃ n, m (.ent s.fresh) = some n ∧ n.val = c
  frame : ∀ p, p ≠ .ent s.fresh → p ∉ .head (s.conns c).ep :: (pool (s.conns c).ep).map s.entOf →
    m p = s.ents p
  vals : ∀ i, i ≠ s.fresh → (m (.ent i)).map (·.val) = (s.ents (.ent i)).map (·.val)

omit [DecidableEq E] in
theorem Holds.fresh_free (h : s.Holds pool) : s.ents (.ent s.fresh) = none := by
  cases hn : s.ents (.ent s.fresh) with
  | none => rfl
  | some n => exact absurd (h.owned _ n hn).1 (Nat.lt_irrefl _)

theorem Holds.connAddrpoolAdd (h : s.Holds pool) (c : Nat) :
    ∃ m, s.connAddrpoolAdd c = some { s.setConn c { s.conns c with
        refs := (s.conns c).refs + 1
        stat := .free
        apool := some (.ent s.fresh) } with
      ents := m
      fresh := s.fresh + 1 } ∧ s.Added pool c m := by
  have hfree := h.fresh_free
  cases hhead : s.ents (.head (s.conns c).ep) with
  | none =>
      -- the hash entry is new, and the node the first of its list
      have hnil := h.empty _ hhead
      refine ⟨Function.update (Function.update s.ents (.ent s.fresh)
        (some { val := c, prev := some (.head (s.conns c).ep), next := none }))
        (.head (s.conns c).ep) (some { val := 0, prev := none, next := some (.ent s.fresh) }),
        ?_, ?_⟩
      · rw [FreePool.connAddrpoolAdd]
        show (match s.ents (.head (s.conns c).ep) with
          | none => _
          | some _ => _) = _
        rw [hhead]
        rfl
      have hnew : Function.update (Function.update s.ents (.ent s.fresh)
          (some { val := c, prev := some (.head (s.conns c).ep), next := none }))
          (.head (s.conns c).ep) (some { val := 0, prev := none, next := some (.ent s.fresh) })
          (.ent s.fresh) =
          some { val := c, prev := some (.head (s.conns c).ep), next := none } := by
        rw [Function.update_of_ne (by simp), Function.update_self]
      constructor
      · rw [hnil, List.map_nil]
        refine ⟨⟨_, Function.update_self _ _ _, rfl, rfl, _, hnew, rfl, rfl⟩, by simp⟩
      · exact ⟨_, hnew, rfl⟩
      · intro p hp hnot
        rw [List.mem_cons, not_or] at hnot
        rw [Function.update_of_ne hnot.1, Function.update_of_ne hp]
      · intro i hi
        rw [Function.update_of_ne (by simp), Function.update_of_ne (by simpa using hi)]
  | some n =>
      have hlist := h.list _ (show s.ents (.head (s.conns c).ep) ≠ none by simp [hhead])
      obtain ⟨m, hm, hadded, hnew, hframe, hvals⟩ := hlist.pushFront hfree c
      refine ⟨m, ?_, hadded, hnew, ?_, ?_⟩
      · rw [FreePool.connAddrpoolAdd]
        show (match s.ents (.head (s.conns c).ep) with
          | none => _
          | some _ => _) = _
        rw [hhead]
        show (s.ents.pushFront (.head (s.conns c).ep) (.ent s.fresh) c).bind _ = _
        rw [hm]
        rfl
      · intro p hp hnot
        rw [List.mem_cons, not_or] at hnot
        apply hframe
        rw [List.mem_cons, List.mem_cons, not_or, not_or]
        exact ⟨hnot.1, hp, hnot.2⟩
      · intro i hi
        exact hvals _ (by simpa using hi)

/-- The pool with the connection in front. -/
theorem Added.holds {m : DHeap (EntPtr E) Nat} {conn : PoolConn E} (hm : s.Added pool c m)
    (h : s.Holds pool) (hc : c ∉ pool (s.conns c).ep) (hep : conn.ep = (s.conns c).ep)
    (hstat : conn.stat = .free) (hrefs : 0 < conn.refs)
    (hapool : conn.apool = some (.ent s.fresh)) :
    Holds { s.setConn c conn with ents := m, fresh := s.fresh + 1 }
      (Function.update pool (s.conns c).ep (c :: pool (s.conns c).ep)) := by
  generalize hs' : ({ s.setConn c conn with ents := m, fresh := s.fresh + 1 } : FreePool E) = s'
  have hents : s'.ents = m := by rw [← hs']
  have hconn : s'.conns c = conn := by
    rw [← hs']
    exact setConn_self
  have hconns : ∀ x, x ≠ c → s'.conns x = s.conns x := by
    intro x hx
    rw [← hs']
    exact setConn_conns hx
  have hent : s'.entOf c = .ent s.fresh := by
    rw [entOf, hconn, hapool, Option.getD_some]
  have hents' : ∀ x, x ≠ c → s'.entOf x = s.entOf x := by
    intro x hx
    rw [entOf, entOf, hconns x hx]
  -- no connection of the pool is `c`, and none has the new node
  have hnot : ∀ ep, ∀ x ∈ pool ep, x ≠ c := by
    rintro ep x hx rfl
    rw [(h.conn ep x hx).ep] at hc
    exact hc hx
  have hmap : ∀ ep, (pool ep).map s'.entOf = (pool ep).map s.entOf := by
    intro ep
    exact List.map_congr_left fun x hx => hents' x (hnot ep x hx)
  have hnode : ∀ ep, ∀ x ∈ pool ep, s'.InPool ep x := by
    intro ep x hx
    obtain ⟨i, n, hi, hn, -⟩ := (h.conn ep x hx).entOf_node
    have hne : i ≠ s.fresh := Nat.ne_of_lt (h.owned i n hn).1
    apply (h.conn ep x hx).congr (hconns x (hnot ep x hx))
    rw [hents, hi]
    exact hm.vals i hne
  have hother {ep' : E} (hne : ep' ≠ (s.conns c).ep) := h.other_list hne (fun _ => by simp)
    (fun x hx => by
      obtain ⟨i, n, hi, hn, -⟩ := (h.conn ep' x hx).entOf_node
      rw [hi, ne_eq, EntPtr.ent.injEq]
      exact Nat.ne_of_lt (h.owned i n hn).1) hm.frame
  constructor
  · intro ep' hnone
    rw [hents] at hnone
    exact h.empty_update hm.list (fun _ hne => (hother hne).1) hnone
  · intro ep' hsome
    rw [hents] at hsome ⊢
    by_cases hne : ep' = (s.conns c).ep
    · rw [hne, Function.update_self, List.map_cons, hent, hmap]
      exact hm.list
    · rw [Function.update_of_ne hne, hmap]
      rw [(hother hne).1] at hsome
      exact (hother hne).2 hsome
  · intro ep' x hx
    by_cases hne : ep' = (s.conns c).ep
    · rw [hne, Function.update_self, List.mem_cons] at hx
      rcases hx with rfl | hx
      · obtain ⟨n, hn, hval⟩ := hm.new
        refine ⟨?_, ?_, ?_, s.fresh, n, ?_, ?_, hval⟩
        · rw [hconn, hep, hne]
        · rw [hconn, hstat]
        · rw [hconn]
          exact hrefs
        · rw [hconn, hapool]
        · rw [hents, hn]
      · rw [hne]
        exact hnode _ x hx
    · rw [Function.update_of_ne hne] at hx
      exact hnode ep' x hx
  · intro i n hn
    have hfresh : s'.fresh = s.fresh + 1 := by rw [← hs']
    rw [hents] at hn
    by_cases hi : i = s.fresh
    · subst hi
      obtain ⟨n', hn', hval⟩ := hm.new
      rw [hn, Option.some.injEq] at hn'
      subst hn'
      rw [hval, hconn, hep, Function.update_self, hfresh]
      exact ⟨Nat.lt_succ_self _, List.mem_cons_self, hapool⟩
    · obtain ⟨n', hn', hval⟩ := node_of_map (hm.vals i hi).symm hn
      obtain ⟨hlt, hmem, hap⟩ := h.owned i n' hn'
      rw [hval] at hmem hap
      have hne := hnot _ n.val hmem
      rw [hconns _ hne, hfresh]
      refine ⟨Nat.lt_succ_of_lt hlt, ?_, hap⟩
      by_cases hep' : (s.conns n.val).ep = (s.conns c).ep
      · rw [hep', Function.update_self, ← hep']
        exact List.mem_cons_of_mem c hmem
      · rw [Function.update_of_ne hep']
        exact hmem
  · intro x hx
    by_cases hne : x = c
    · rw [hne, hconn, hep, Function.update_self]
      exact List.mem_cons_self
    · rw [hconns x hne] at hx ⊢
      have hmem := h.idle x hx
      by_cases hep' : (s.conns x).ep = (s.conns c).ep
      · rw [hep', Function.update_self, ← hep']
        exact List.mem_cons_of_mem c hmem
      · rw [Function.update_of_ne hep']
        exact hmem

-- ============================================================================
-- Removing
-- ============================================================================

/-- The heap without the node of `c`. -/
structure Removed (s : FreePool E) (pool : Pool E) (ep : E) (c : Nat)
    (m : DHeap (EntPtr E) Nat) : Prop where
  list : m.IsList (.head ep) (((pool ep).erase c).map s.entOf)
  freed : m (s.entOf c) = none
  frame : ∀ p, p ∉ .head ep :: (pool ep).map s.entOf → m p = s.ents p
  vals : s.ents.SameVals m (s.entOf c)

omit [DecidableEq E] in
/-- An endpoint with free connections has a list. -/
theorem Holds.head_ne_none (h : s.Holds pool) (hc : c ∈ pool ep) : s.ents (.head ep) ≠ none := by
  intro hnone
  rw [h.empty ep hnone] at hc
  exact List.not_mem_nil hc

/-- A free connection is unlinked, wherever it is in the list. -/
theorem Holds.unlink (h : s.Holds pool) (hc : c ∈ pool ep) :
    ∃ m, s.ents.unlink (s.entOf c) = some m ∧ s.Removed pool ep c m := by
  obtain ⟨xs, ys, heq⟩ := List.append_of_mem hc
  have hlist := h.list ep (h.head_ne_none hc)
  have hnodup := h.nodup ep
  rw [heq, List.map_append, List.map_cons] at hlist
  rw [heq] at hnodup
  have hnot : c ∉ xs := fun hx => (List.nodup_append.mp hnodup).2.2 c hx c List.mem_cons_self rfl
  have herase : (pool ep).erase c = xs ++ ys := by
    rw [heq, List.erase_append_right _ hnot, List.erase_cons_head]
  obtain ⟨m, hm, hlist', hfreed, hframe, hvals⟩ := hlist.unlink
  refine ⟨m, hm, ?_, hfreed, ?_, hvals⟩
  · rw [herase, List.map_append]
    exact hlist'
  · intro p hp
    apply hframe
    rw [heq, List.map_append, List.map_cons] at hp
    exact hp

/-- The pool without the connection. -/
theorem Removed.holds {m : DHeap (EntPtr E) Nat} {conn : PoolConn E}
    (hm : s.Removed pool ep c m) (h : s.Holds pool) (hc : c ∈ pool ep) (hep : conn.ep = ep)
    (hidle : conn.idle = false) :
    Holds { s.setConn c conn with ents := m } (Function.update pool ep ((pool ep).erase c)) := by
  generalize hs' : ({ s.setConn c conn with ents := m } : FreePool E) = s'
  have hents : s'.ents = m := by rw [← hs']
  have hconn : s'.conns c = conn := by
    rw [← hs']
    exact setConn_self
  have hconns : ∀ x, x ≠ c → s'.conns x = s.conns x := by
    intro x hx
    rw [← hs']
    exact setConn_conns hx
  have hold := (h.conn ep c hc).ep
  -- the connections that stay are others than `c`, at nodes other than its node
  have hnot : ∀ ep', ∀ x ∈ Function.update pool ep ((pool ep).erase c) ep',
      x ∈ pool ep' ∧ x ≠ c := by
    intro ep' x hx
    by_cases hne : ep' = ep
    · subst hne
      rw [Function.update_self] at hx
      exact ⟨List.mem_of_mem_erase hx, ((h.nodup ep').mem_erase_iff.mp hx).1⟩
    · rw [Function.update_of_ne hne] at hx
      refine ⟨hx, ?_⟩
      rintro rfl
      exact hne ((h.conn ep' x hx).ep.symm.trans hold)
  have hstays : ∀ x ∈ pool (s.conns x).ep, x ≠ c →
      x ∈ Function.update pool ep ((pool ep).erase c) (s.conns x).ep := by
    intro x hx hne
    by_cases hxep : (s.conns x).ep = ep
    · rw [hxep] at hx
      rw [hxep, Function.update_self]
      exact (List.mem_erase_of_ne hne).mpr hx
    · rw [Function.update_of_ne hxep]
      exact hx
  have hmap : ∀ ep', (Function.update pool ep ((pool ep).erase c) ep').map s'.entOf =
      (Function.update pool ep ((pool ep).erase c) ep').map s.entOf := by
    intro ep'
    apply List.map_congr_left
    intro x hx
    rw [entOf, entOf, hconns x (hnot ep' x hx).2]
  obtain ⟨j, _, hj, -, -⟩ := (h.conn ep c hc).entOf_node
  have hother {ep' : E} (hne : ep' ≠ ep) := h.other_list hne (a := s.entOf c)
    (fun _ => by
      rw [hj]
      simp)
    (fun x hx heq => by
      have hcx := h.entOf_inj hx hc heq
      subst hcx
      exact hne ((h.conn ep' x hx).ep.symm.trans hold))
    (fun p _ => hm.frame p)
  constructor
  · intro ep' hnone
    rw [hents] at hnone
    exact h.empty_update hm.list (fun _ hne => (hother hne).1) hnone
  · intro ep' hsome
    rw [hmap, hents]
    rw [hents] at hsome
    by_cases hne : ep' = ep
    · rw [hne, Function.update_self]
      exact hm.list
    · rw [Function.update_of_ne hne]
      rw [(hother hne).1] at hsome
      exact (hother hne).2 hsome
  · intro ep' x hx
    obtain ⟨hin, hne⟩ := hnot ep' x hx
    have hdiff : s.entOf x ≠ s.entOf c := fun heq => hne (h.entOf_inj hin hc heq)
    apply (h.conn ep' x hin).congr (hconns x hne)
    rw [hents]
    exact hm.vals _ hdiff
  · intro i n hn
    have hfresh : s'.fresh = s.fresh := by
      rw [← hs']
      rfl
    rw [hents] at hn
    have hdiff : EntPtr.ent i ≠ s.entOf c := by
      intro heq
      rw [heq, hm.freed] at hn
      exact absurd hn (by simp)
    obtain ⟨n', hn', hval⟩ := node_of_map (hm.vals _ hdiff).symm hn
    obtain ⟨hlt, hmem, hap⟩ := h.owned i n' hn'
    rw [hval] at hmem hap
    have hne : n.val ≠ c := by
      intro heq
      rw [heq] at hap
      exact hdiff (by rw [entOf, hap, Option.getD_some])
    rw [hconns _ hne, hfresh]
    exact ⟨hlt, hstays _ hmem hne, hap⟩
  · intro x hx
    by_cases hne : x = c
    · rw [hne, hconn, hidle] at hx
      exact absurd hx (by simp)
    · rw [hconns x hne] at hx ⊢
      exact hstays x (h.idle x hx) hne

-- ============================================================================
-- Calls
-- ============================================================================

omit [DecidableEq E] in
/-- The fields of a connection change that the lists do not depend on. -/
theorem Holds.setConn {conn : PoolConn E} (h : s.Holds pool) (hep : conn.ep = (s.conns c).ep)
    (hidle : conn.idle = true → (s.conns c).idle = true)
    (hin : c ∈ pool (s.conns c).ep →
      conn.stat = .free ∧ 0 < conn.refs ∧ conn.apool = (s.conns c).apool) :
    (s.setConn c conn).Holds pool := by
  generalize hs' : s.setConn c conn = s'
  have hents : s'.ents = s.ents := by rw [← hs']; rfl
  have hconn : s'.conns c = conn := by
    rw [← hs']
    exact setConn_self
  have hconns : ∀ x, x ≠ c → s'.conns x = s.conns x := by
    intro x hx
    rw [← hs']
    exact setConn_conns hx
  have heps : ∀ x, (s'.conns x).ep = (s.conns x).ep := by
    intro x
    by_cases hx : x = c
    · rw [hx, hconn, hep]
    · rw [hconns x hx]
  have hapools : ∀ x, x ∈ pool (s.conns x).ep → (s'.conns x).apool = (s.conns x).apool := by
    intro x hin'
    by_cases hx : x = c
    · subst hx
      rw [hconn, (hin hin').2.2]
    · rw [hconns x hx]
  have hpooled : ∀ ep, ∀ x ∈ pool ep, x ∈ pool (s.conns x).ep := by
    intro ep x hx
    rw [(h.conn ep x hx).ep]
    exact hx
  constructor
  · rw [hents]
    exact h.empty
  · intro ep' hsome
    rw [hents] at hsome ⊢
    have hmap : (pool ep').map s'.entOf = (pool ep').map s.entOf := by
      apply List.map_congr_left
      intro x hx
      rw [entOf, entOf, hapools x (hpooled ep' x hx), heps]
    rw [hmap]
    exact h.list ep' hsome
  · intro ep' x hx
    have hold := h.conn ep' x hx
    obtain ⟨i, n, hap, hn, hval⟩ := hold.node
    refine ⟨(heps x).trans hold.ep, ?_, ?_, i, n, ?_, ?_, hval⟩
    · by_cases hxc : x = c
      · subst hxc
        rw [hconn]
        exact (hin (hpooled ep' x hx)).1
      · rw [hconns x hxc]
        exact hold.stat
    · by_cases hxc : x = c
      · subst hxc
        rw [hconn]
        exact (hin (hpooled ep' x hx)).2.1
      · rw [hconns x hxc]
        exact hold.refs
    · rw [hapools x (hpooled ep' x hx), hap]
    · rw [hents, hn]
  · intro i n hn
    have hfresh : s'.fresh = s.fresh := by rw [← hs']; rfl
    rw [hents] at hn
    obtain ⟨hlt, hmem, hap⟩ := h.owned i n hn
    rw [hfresh, heps, hapools _ hmem]
    exact ⟨hlt, hmem, hap⟩
  · intro x hx
    rw [heps]
    by_cases hxc : x = c
    · subst hxc
      rw [hconn] at hx
      exact h.idle x (hidle hx)
    · rw [hconns x hxc] at hx
      exact h.idle x hx

/-- The state behind a call, as the connections that are free say it. -/
def Stepped (s : FreePool E) (pool : Pool E) (op : Op E) : Prop :=
  ∃ r s', s.exec op = some (r, s') ∧ s'.Holds (s.poolStep pool op) ∧ s.Answers pool op r s'

theorem Holds.free (h : s.Holds pool) (hen : s.Enabled pool (.free c)) :
    s.Stepped pool (.free c) := by
  by_cases hguard : (s.conns c).stat = .closed ∨ s.mainStat = .exiting
  · refine ⟨none, s, ?_, ?_, ?_⟩
    · rw [exec, connFree, if_pos hguard]
      rfl
    · rw [poolStep, if_pos hguard]
      exact h
    · intro x
      rw [if_neg fun hx => hx.2 hguard, Nat.add_zero]
  generalize hs₁ : s.setConn c { s.conns c with stat := .free } = s₁
  have hconn₁ : s₁.conns c = { s.conns c with stat := .free } := by
    rw [← hs₁]
    exact setConn_self
  have hconns₁ : ∀ x, x ≠ c → s₁.conns x = s.conns x := by
    intro x hx
    rw [← hs₁]
    exact setConn_conns hx
  have h₁ : s₁.Holds pool := by
    rw [← hs₁]
    exact h.setConn rfl id fun hin => absurd hin hen.1
  have hep₁ : (s₁.conns c).ep = (s.conns c).ep := by rw [hconn₁]
  have hnot : c ∉ pool (s₁.conns c).ep := by
    rw [hep₁]
    exact hen.1
  obtain ⟨m, hm, hadded⟩ := h₁.connAddrpoolAdd c
  -- the handler is set on the connection that was added
  obtain ⟨conn, hconn⟩ : ∃ conn : PoolConn E, conn = { s₁.conns c with
      refs := (s₁.conns c).refs + 1
      stat := .free
      apool := some (.ent s₁.fresh)
      idle := (s₁.conns c).registered } := ⟨_, rfl⟩
  have hexec : s.exec (.free c) =
      some (none, { s₁.setConn c conn with ents := m, fresh := s₁.fresh + 1 }) := by
    rw [exec, connFree, if_neg hguard, hs₁]
    show ((s₁.connAddrpoolAdd c).bind _).map _ = _
    rw [hm, Option.bind_some, hconn]
    simp only [FreePool.setConn, Function.update_self, Function.update_idem, Option.pure_def,
      Option.map_some]
  have hep : conn.ep = (s₁.conns c).ep := by rw [hconn]
  have hrefs : 0 < conn.refs := by
    rw [hconn]
    exact Nat.succ_pos _
  have hfinal := hadded.holds h₁ hnot hep (by rw [hconn]) hrefs (by rw [hconn])
  refine ⟨none, _, hexec, ?_, ?_⟩
  · rw [poolStep, if_neg hguard, ← hep₁]
    exact hfinal
  · intro x
    show (Function.update s₁.conns c conn x).refs = _
    by_cases hx : x = c
    · rw [hx, Function.update_self, if_pos ⟨rfl, hguard⟩, hconn, hconn₁]
    · rw [Function.update_of_ne hx, if_neg fun h => hx h.1, hconns₁ x hx, Nat.add_zero]

theorem Holds.get (h : s.Holds pool) (ep : E) : s.Stepped pool (.get ep) := by
  -- without a free connection nothing happens
  have hmiss : pool ep = [] → s.connAddrpoolTryGetAndDel ep = some (none, s) →
      s.Stepped pool (.get ep) := by
    intro hnil hnone
    refine ⟨none, s, ?_, ?_, ?_⟩
    · rw [exec, connGetByEndpoint, hnone]
      rfl
    · rw [poolStep, hnil, List.tail_nil, ← hnil, Function.update_eq_self]
      exact h
    · refine ⟨by rw [hnil]; rfl, fun _ => rfl, fun c hc => ?_⟩
      exact absurd hc (by simp)
  cases hhead : s.ents (.head ep) with
  | none =>
      apply hmiss (h.empty ep hhead)
      rw [connAddrpoolTryGetAndDel, hhead]
  | some n =>
      have hlist := h.list ep (by rw [hhead]; simp)
      obtain ⟨n', hn', -, hseg⟩ := hlist.seg
      rw [hhead, Option.some.injEq] at hn'
      subst hn'
      have hfirst := hseg.first_eq
      cases hpool : pool ep with
      | nil =>
          rw [hpool] at hfirst
          apply hmiss hpool
          rw [connAddrpoolTryGetAndDel, hhead]
          exact if_pos hfirst
      | cons c cs =>
          have hc : c ∈ pool ep := by
            rw [hpool]
            exact List.mem_cons_self
          rw [hpool, List.map_cons] at hfirst hlist
          obtain ⟨e, m, he, hpop, hunlink⟩ := hlist.popFront
          obtain ⟨m', hm', hremoved⟩ := h.unlink hc
          rw [hunlink, Option.some.injEq] at hm'
          subst hm'
          obtain ⟨i, e', hi, he', hval⟩ := (h.conn ep c hc).entOf_node
          rw [hi, he', Option.some.injEq] at he
          subst he
          obtain ⟨conn, hconn⟩ : ∃ conn : PoolConn E, conn = { s.conns c with
              apool := none
              stat := .used
              idle := false } := ⟨_, rfl⟩
          have hexec : s.exec (.get ep) = some (some c, { s.setConn c conn with ents := m }) := by
            rw [exec, connGetByEndpoint, connAddrpoolTryGetAndDel, hhead]
            simp only [hfirst, List.head?_cons, reduceCtorEq, if_false, hpop, hval,
              Option.bind_eq_bind, Option.bind_some, Option.pure_def]
            simp only [FreePool.setConn, Function.update_self, Function.update_idem, hconn]
          have hep : conn.ep = ep := by
            rw [hconn]
            exact (h.conn ep c hc).ep
          have hfinal := hremoved.holds h hc hep (by rw [hconn])
          refine ⟨some c, _, hexec, ?_, ?_, ?_, ?_⟩
          · rw [poolStep, hpool, List.tail_cons]
            rw [hpool, List.erase_cons_head] at hfinal
            exact hfinal
          · rw [hpool, List.head?_cons]
          · intro x
            show (Function.update s.conns c conn x).refs = _
            by_cases hx : x = c
            · rw [hx, Function.update_self, hconn]
            · rw [Function.update_of_ne hx]
          · rintro x ⟨⟩
            show (Function.update s.conns c conn c).stat = _ ∧
              (Function.update s.conns c conn c).apool = _ ∧
              (Function.update s.conns c conn c).idle = _
            rw [Function.update_self, hconn]
            exact ⟨rfl, rfl, rfl⟩

/-- What `mem_decref` makes of a connection: the last one to go closes it. -/
structure Decrefed (s : FreePool E) (c : Nat) (conn : PoolConn E) : Prop where
  ep : conn.ep = (s.conns c).ep
  refs : conn.refs = (s.conns c).refs - 1
  closed : (s.conns c).stat = .closed → conn.stat = .closed
  kept : conn.refs ≠ 0 → conn.stat = (s.conns c).stat
  apool : conn.apool = (s.conns c).apool
  idle : conn.idle = true → (s.conns c).idle = true

omit [DecidableEq E] in
theorem memDecref_eq (s : FreePool E) (c : Nat) :
    ∃ conn, s.memDecref c = s.setConn c conn ∧ s.Decrefed c conn := by
  generalize hconn : ({ s.conns c with refs := (s.conns c).refs - 1 } : PoolConn E) = conn
  by_cases hrefs : (s.conns c).refs - 1 = 0
  · refine ⟨{ conn with stat := .closed, registered := false, idle := false }, ?_, ?_⟩
    · by_cases hstat : (s.conns c).stat = .closed
      · simp [memDecref, connDone, setConn, ← hconn, hrefs, hstat]
      · simp [memDecref, connDone, connClose, setConn, ← hconn, hrefs, hstat]
    · subst hconn
      exact ⟨rfl, rfl, fun _ => rfl, fun hne => absurd hrefs hne, rfl,
        fun hf => absurd hf (by simp)⟩
  · refine ⟨conn, ?_, ?_⟩
    · simp [memDecref, setConn, ← hconn, hrefs]
    · subst hconn
      exact ⟨rfl, rfl, id, fun _ => rfl, rfl, id⟩

/-- An error on an idle connection: whoever closes it, it is unlinked. -/
theorem Holds.idleClosed (h : s.Holds pool) (hidle : (s.conns c).idle = true) (errHandler : Bool) :
    ∃ m conn, s.Removed pool (s.conns c).ep c m ∧
      s.connNoticeFreeConnectionClosed c true errHandler =
        some { s.setConn c conn with ents := m } ∧
      conn.ep = (s.conns c).ep ∧ conn.stat = .closed ∧ conn.idle = false ∧
      conn.refs = (s.conns c).refs - 1 := by
  have hc : c ∈ pool (s.conns c).ep := h.idle c hidle
  have hpooled := h.conn _ c hc
  obtain ⟨i, n, hapool, -, -⟩ := hpooled.node
  obtain ⟨m, hm, hremoved⟩ := h.unlink hc
  rw [entOf, hapool, Option.getD_some] at hm
  -- the handler for errors closes the connection before conn_close does
  obtain ⟨closed, hclosed⟩ : ∃ conn : PoolConn E, conn = { s.conns c with
      stat := .closed
      registered := (s.conns c).registered && errHandler
      idle := false } := ⟨_, rfl⟩
  have hexec : s.connNoticeFreeConnectionClosed c true errHandler =
      some (memDecref { s.setConn c closed with ents := m } c) := by
    rw [connNoticeFreeConnectionClosed]
    cases errHandler with
    | false =>
        simp only [connClose, connAddrpoolDel, FreePool.setConn, Function.update_self,
          Function.update_idem, hpooled.stat, reduceCtorEq, if_false, Bool.and_false,
          Bool.false_eq_true, if_true, hapool, hm, Option.bind_eq_bind, Option.bind_some,
          Option.pure_def, hclosed]
    | true =>
        simp only [connClose, connAddrpoolDel, FreePool.setConn, Function.update_self, if_true,
          Bool.and_true, hapool, hm, Option.bind_eq_bind, Option.bind_some, Option.pure_def,
          hclosed]
  obtain ⟨conn, hconn, hdecref⟩ := memDecref_eq { s.setConn c closed with ents := m } c
  have hself : (s.setConn c closed).conns c = closed := setConn_self
  refine ⟨m, conn, hremoved, ?_, ?_, ?_, ?_, ?_⟩
  · rw [hexec, hconn]
    simp only [FreePool.setConn, Function.update_idem]
  · rw [hdecref.ep, hself, hclosed]
  · apply hdecref.closed
    rw [hself, hclosed]
  · have hidle' := hdecref.idle
    rw [hself, hclosed] at hidle'
    simpa using hidle'
  · rw [hdecref.refs, hself, hclosed]

theorem Holds.idleEvent (h : s.Holds pool) {err errHandler : Bool}
    (hen : s.Enabled pool (.idleEvent c err errHandler)) :
    s.Stepped pool (.idleEvent c err errHandler) := by
  have hc : c ∈ pool (s.conns c).ep := h.idle c hen
  have hpooled := h.conn _ c hc
  cases err with
  | false =>
      generalize hconn : ({ s.conns c with idle := (s.conns c).registered } : PoolConn E) = conn
      have hexec : s.exec (.idleEvent c false errHandler) = some (none, s.setConn c conn) := by
        simp [exec, connNoticeFreeConnectionClosed, FreePool.setConn, ← hconn]
      refine ⟨none, _, hexec, ?_, fun hf => absurd hf (by simp), fun x => ?_⟩
      · rw [poolStep, if_neg (by simp)]
        apply h.setConn
        · rw [← hconn]
        · exact fun _ => hen
        · intro _
          rw [← hconn]
          exact ⟨hpooled.stat, hpooled.refs, rfl⟩
      · rw [if_neg (by simp), Nat.add_zero]
        by_cases hx : x = c
        · rw [hx, setConn_self, ← hconn]
        · rw [setConn_conns hx]
  | true =>
      obtain ⟨m, conn, hremoved, heq, hep, hstat, hidle, hrefs⟩ := h.idleClosed hen errHandler
      refine ⟨none, { s.setConn c conn with ents := m }, ?_, ?_, fun _ => ?_, fun x => ?_⟩
      · rw [exec, heq, Option.map_some]
      · rw [poolStep, if_pos rfl]
        exact hremoved.holds h hc hep hidle
      · show ((s.setConn c conn).conns c).stat = _
        rw [setConn_self, hstat]
      · show _ = ((s.setConn c conn).conns x).refs + _
        by_cases hx : x = c
        · have hpos := hpooled.refs
          rw [hx, setConn_self, if_pos ⟨rfl, rfl⟩, hrefs]
          omega
        · rw [setConn_conns hx, if_neg fun hf => hx hf.1, Nat.add_zero]

/-- One call keeps the invariant and answers as the free connections say. -/
theorem Holds.step (h : s.Holds pool) (hen : s.Enabled pool op) : s.Stepped pool op := by
  cases op with
  | free c => exact h.free hen
  | get ep => exact h.get ep
  | idleEvent c err errHandler => exact h.idleEvent hen
  | incref c =>
      refine ⟨none, _, rfl, h.setConn rfl id fun hin => ?_, trivial⟩
      exact ⟨(h.conn _ c hin).stat, Nat.succ_pos _, rfl⟩
  | decref c =>
      obtain ⟨conn, hconn, hdecref⟩ := s.memDecref_eq c
      refine ⟨none, _, rfl, ?_, trivial⟩
      rw [hconn]
      apply h.setConn hdecref.ep hdecref.idle
      intro hin
      -- the reference of the pool is another one than the one that goes
      have hone : 0 < (pool (s.conns c).ep).count c := List.count_pos_iff.mpr hin
      have hmore : (pool (s.conns c).ep).count c < (s.conns c).refs := hen
      have hrefs := hdecref.refs
      have hpos : 0 < conn.refs := by omega
      refine ⟨?_, hpos, hdecref.apool⟩
      rw [hdecref.kept (Nat.ne_of_gt hpos)]
      exact (h.conn _ c hin).stat
  | close c =>
      refine ⟨none, _, rfl, ?_, trivial⟩
      rw [connClose]
      split
      · exact h
      · exact h.setConn rfl (fun hf => absurd hf (by simp)) fun hin => absurd hin hen
  | exit =>
      refine ⟨none, _, rfl, ⟨h.empty, h.list, fun ep c hc => ?_, h.owned, h.idle⟩, trivial⟩
      have hin := h.conn ep c hc
      exact ⟨hin.ep, hin.stat, hin.refs, hin.node⟩

/-- In every state that calls lead to, in any order and over any endpoints, each list
    holds exactly the connections freed for its endpoint and not taken or closed since,
    newest first; every call goes through on the pointers; a hit takes the newest one with
    the pool's reference, and the notice that one has closed drops that reference once. -/
theorem freePool_holds (hs : Reached s pool) :
    s.Holds pool ∧ ∀ op, s.Enabled pool op → s.Stepped pool op := by
  have hholds : s.Holds pool := by
    induction hs with
    | start hfresh => exact hfresh.holds
    | step _ hen hexec ih =>
        obtain ⟨r, s', hexec', hholds, -⟩ := ih.step hen
        rw [hexec, Option.some.injEq, Prod.mk.injEq] at hexec'
        rw [hexec'.2]
        exact hholds
  exact ⟨hholds, fun op hen => hholds.step hen⟩

end

/-- No free connection yet; every connection has an owner, and every second one is to
    endpoint 1. -/
def ownedConns : FreePool Nat where
  mainStat := .running
  ents _ := none
  fresh := 0
  conns c := {
    ep := c % 2
    stat := .used
    apool := none
    refs := 1
    registered := true
    idle := false
  }

theorem ownedConns_fresh : ownedConns.Fresh := ⟨fun _ => rfl, fun _ => rfl⟩

/-- Connection 4 is freed, and then the pool has one for endpoint 0. -/
theorem freePool_holds_freed : ∃ s, Reached s (ownedConns.poolStep (fun _ => []) (.free 4)) ∧
    s.Stepped (ownedConns.poolStep (fun _ => []) (.free 4)) (.get 0) := by
  have hen : ownedConns.Enabled (fun _ => []) (.free 4) := ⟨List.not_mem_nil, Nat.one_pos⟩
  have hstart := Reached.start ownedConns_fresh
  obtain ⟨r, s, hexec, -, -⟩ := (freePool_holds hstart).2 (.free 4) hen
  have hs := Reached.step hstart hen hexec
  exact ⟨s, hs, (freePool_holds hs).2 (.get 0) trivial⟩

end FreePool

end HttpProxy
