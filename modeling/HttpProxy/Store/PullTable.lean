/-
  HttpProxy.Store.PullTable

  The handlers of core/net_pull.c in memory: a table of uthash with the allocated
  `struct net_handler_t`, and the array of net_pull_done, which still points to them
  when the table is gone.

  net_pull_work copies an entry and clears the live one before it calls the handlers,
  net_pull_done reads and frees one entry of the array for each round; in between the
  handlers call whatever they like.  `PullStore.exec` is one call, or one thing these
  loops do, and is `none` where it would use freed memory.  `PullView` is the table as
  a list (`Net`) with the copies that net_pull_done has yet to go through, as the main
  loop has them in `Todo.done`.
-/

import HttpProxy.Lib.KeyTable
import HttpProxy.Lib.Run
import HttpProxy.System.Step

namespace HttpProxy

open Lib

/-- The assignments of `net_pull_set_handler` for the flags EPOLLIN and EPOLLOUT. -/
def PullEnt.setFlags (e : PullEnt) (rd wr : Bool) (h : Option Handler) : PullEnt :=
  let e := if rd then e.set .read h else e
  if wr then e.set .write h else e

/-- A call, or a part of net_pull_work and net_pull_done. -/
inductive PullCmd where
  | sysOpen (fd : Fd) (o : FdOwner)
  | sysClose (fd : Fd)
  /-- `mem_alloc` returns `a` if it is called -/
  | add (a : Nat) (ok : Bool) (fd : Fd) (err : Option (ClientId × ConnIx))
  | setHandler (fd : Fd) (rd wr : Bool) (h : Option Handler)
  | del (fd : Fd)
  /-- net_pull_work at an event: the entry is copied, and the live one cleared -/
  | take (fd : Fd)
  /-- net_pull_done up to its loop -/
  | done
  /-- `memcpy(&nh, *i, sizeof(struct net_handler_t))` -/
  | copy
  /-- `mem_free(*i)`, and the loop goes on -/
  | next

/-- What a call returns, or an entry that was copied. -/
inductive PullAns where
  | ret (n : Int)
  | ent (e : Option PullEnt)
deriving DecidableEq

-- ============================================================================
-- The table as a list
-- ============================================================================

structure PullView where
  net : Net
  copied : List PullEnt

namespace PullView

def init : PullView where
  net := { table := [], fdCnt := 0, epoll := fun _ => false, fds := fun _ => none, acts := [] }
  copied := []

/-- net_pull_done closes and copies everything. -/
def netPullDone (v : PullView) : PullView where
  net := { v.net.table.foldl (fun net e => net.sysClose e.fd) v.net with table := [] }
  copied := v.net.table

def netPullSetHandler (net : Net) (fd : Fd) (rd wr : Bool) (h : Option Handler) : Net :=
  let net := if rd then net.netPullSetHandler fd .read h else net
  if wr then net.netPullSetHandler fd .write h else net

/-- `none` where the loop of net_pull_done is not there. -/
def exec (v : PullView) : PullCmd → Option (PullAns × PullView)
  | .sysOpen fd o => some (.ret fd, { v with net := v.net.sysOpen fd o })
  | .sysClose fd => some (.ret 0, { v with net := v.net.sysClose fd })
  | .add _ ok fd err =>
      some (.ret (if ok then 0 else -1), { v with net := v.net.netPullAdd ok fd err })
  | .setHandler fd rd wr h =>
      some (.ret (if (v.net.pullFind fd).isSome then 0 else -1),
        { v with net := netPullSetHandler v.net fd rd wr h })
  | .del fd =>
      some (.ret (if (v.net.pullFind fd).isSome && v.net.epoll fd then 0 else -1),
        { v with net := v.net.netPullDel fd })
  | .take fd =>
      some (.ent (v.net.pullFind fd),
        { v with net := netPullSetHandler v.net fd true true none })
  | .done => if v.copied = [] then some (.ret 0, v.netPullDone) else none
  | .copy => v.copied.head?.map fun nh => (.ent (some nh), v)
  | .next =>
      match v.copied with
      | [] => none
      | _ :: copied => some (.ret 0, { v with copied })

variable {net : Net} {fd : Fd}

/-- Setting both handlers one after the other. -/
theorem setHandler_table (net : Net) (fd : Fd) (rd wr : Bool) (f : Option Handler) :
    (netPullSetHandler net fd rd wr f).table =
      net.table.map fun e => if e.fd = fd then e.setFlags rd wr f else e := by
  cases rd with
  | false =>
      cases wr with
      | false =>
          have hsame : (fun e : PullEnt => if e.fd = fd then e.setFlags false false f else e) =
              id := by
            funext e
            exact ite_self e
          rw [hsame, List.map_id]
          rfl
      | true => rfl
  | true =>
      cases wr with
      | false => rfl
      | true =>
          show (net.table.map _).map _ = _
          rw [List.map_map]
          apply List.map_congr_left
          intro e _
          by_cases hfd : e.fd = fd
          · simp [hfd, PullEnt.setFlags, PullEnt.set]
          · simp [hfd]

theorem setHandler_rest (net : Net) (fd : Fd) (rd wr : Bool) (f : Option Handler) :
    (netPullSetHandler net fd rd wr f).fdCnt = net.fdCnt ∧
      (netPullSetHandler net fd rd wr f).epoll = net.epoll ∧
      (netPullSetHandler net fd rd wr f).fds = net.fds := by
  cases rd <;> cases wr <;> exact ⟨rfl, rfl, rfl⟩

/-- Without an entry nothing is set. -/
theorem setHandler_none (hnone : net.pullFind fd = none) (rd wr : Bool) (f : Option Handler) :
    netPullSetHandler net fd rd wr f = net := by
  have hstay (d : Dir) : net.netPullSetHandler fd d f = net := by
    have htable : (net.table.map fun e => if e.fd = fd then e.set d f else e) = net.table := by
      calc net.table.map (fun e => if e.fd = fd then e.set d f else e)
          = net.table.map id := List.map_congr_left fun e he => if_neg fun hfd =>
            List.find?_eq_none.mp hnone e he (decide_eq_true hfd)
        _ = net.table := List.map_id _
    rw [Net.netPullSetHandler, htable]
  cases rd with
  | false =>
      cases wr with
      | false => rfl
      | true => exact hstay .write
  | true =>
      show (if wr = true then (net.netPullSetHandler fd .read f).netPullSetHandler fd .write f
        else net.netPullSetHandler fd .read f) = net
      rw [hstay .read, hstay .write, ite_self]

-- ============================================================================
-- The main loop
-- ============================================================================

/-- `proxy_done` closes and copies the entries. -/
theorem exec_done (w : World) : exec ⟨w.sh.net, []⟩ .done =
    some (.ret 0, ⟨w.proxyDone.sh.net, w.sh.net.table⟩) := rfl

theorem connErr_net (w : World) (t : ClientId × ConnIx) : (w.connErr t).sh.net = w.sh.net := by
  rw [World.connErr]
  split
  · rfl
  · split
    · rfl
    · rfl

/-- A step of the loop of net_pull_work takes the entry of its event. -/
theorem exec_take (w : World) (ev : EpollEvent) (evs : List EpollEvent)
    (copied : List PullEnt) : exec ⟨w.sh.net, copied⟩ (.take ev.fd) =
      some (.ent (w.sh.net.pullFind ev.fd),
        ⟨(w.nextTodo (.batch (ev :: evs))).sh.net, copied⟩) := by
  rw [exec, World.nextTodo]
  cases hfind : w.sh.net.pullFind ev.fd with
  | none =>
      rw [setHandler_none hfind]
      rfl
  | some nh =>
      have hnet (w' : World) : (if ev.err = true then (nh.err.map w'.connErr).getD w'
          else w').sh.net = w'.sh.net := by
        cases ev.err with
        | false => rfl
        | true =>
            cases nh.err with
            | none => rfl
            | some t => exact connErr_net w' t
      show some (_, PullView.mk _ _) = some (_, PullView.mk (World.setMain _ _).sh.net _)
      rw [World.setMain, hnet]
      rfl

end PullView

-- ============================================================================
-- The table in memory
-- ============================================================================

/-- The static variables of core/net_pull.c; `copied` is the array of net_pull_done from
    `i` on. -/
structure PullStore where
  handlers : KeyTable Fd PullEnt
  fdCnt : Int
  epoll : Fd → Bool
  fds : Fd → Option FdOwner
  copied : List Nat

namespace PullStore

def init : PullStore where
  handlers := .init
  fdCnt := 0
  epoll := fun _ => false
  fds := fun _ => none
  copied := []

/-- `HASH_FIND_INT(handlers, &fd, h)` -/
def hashFindInt (s : PullStore) (fd : Fd) : Option (KeySlot Fd) := s.handlers.find hashWord fd

/-- `net_pull_add` -/
def netPullAdd (s : PullStore) (a : Nat) (ok : Bool) (fd : Fd) (err : Option (ClientId × ConnIx)) :
    PullStore :=
  if ok then
    { s with
      epoll := Function.update s.epoll fd true
      handlers := match s.hashFindInt fd with
        | none => s.handlers.add hashWord a fd { fd, rd := none, wr := none, err }
        | some _ => s.handlers
      fdCnt := s.fdCnt + 1 }
  else s

/-- `net_pull_set_handler` -/
def netPullSetHandler (s : PullStore) (fd : Fd) (rd wr : Bool) (f : Option Handler) :
    Option (Int × PullStore) :=
  match s.hashFindInt fd with
  | none => some (-1, s)
  | some h => do
      let e ← s.handlers.heap h.addr
      let handlers ← s.handlers.write h.addr (e.setFlags rd wr f)
      return (0, { s with handlers })

/-- `net_pull_del` -/
def netPullDel (s : PullStore) (fd : Fd) : Option (Int × PullStore) :=
  match s.hashFindInt fd with
  | none => some (-1, s)
  | some h =>
      if s.epoll fd then do
        let handlers ← (s.handlers.unlink hashWord h).free h.addr
        return (0, { s with
          epoll := Function.update s.epoll fd false
          handlers
          fdCnt := s.fdCnt - 1 })
      else some (-1, s)

/-- `net_pull_work` at an event. -/
def take (s : PullStore) (fd : Fd) : Option (Option PullEnt × PullStore) :=
  match s.hashFindInt fd with
  | none => some (none, s)
  | some h => do
      let nh ← s.handlers.heap h.addr
      let handlers ← s.handlers.write h.addr (nh.setFlags true true none)
      return (some nh, { s with handlers })

/-- `*p++ = h; close(h->fd);` -/
def closeEnt (s : PullStore) (h : KeySlot Fd) : Option PullStore := do
  let e ← s.handlers.heap h.addr
  return { s with
    copied := s.copied ++ [h.addr]
    fds := Function.update s.fds e.fd none
    epoll := Function.update s.epoll e.fd false }

/-- `net_pull_done` up to its loop. -/
def netPullDone (s : PullStore) : Option PullStore := do
  let s ← s.handlers.table.items.foldlM closeEnt s
  return { s with handlers := s.handlers.clear }

def exec (s : PullStore) : PullCmd → Option (PullAns × PullStore)
  | .sysOpen fd o => some (.ret fd, { s with fds := Function.update s.fds fd (some o) })
  | .sysClose fd =>
      some (.ret 0, { s with
        fds := Function.update s.fds fd none
        epoll := Function.update s.epoll fd false })
  | .add a ok fd err => some (.ret (if ok then 0 else -1), s.netPullAdd a ok fd err)
  | .setHandler fd rd wr h => (s.netPullSetHandler fd rd wr h).map fun x => (.ret x.1, x.2)
  | .del fd => (s.netPullDel fd).map fun x => (.ret x.1, x.2)
  | .take fd => (s.take fd).map fun x => (.ent x.1, x.2)
  | .done => s.netPullDone.map fun s => (.ret 0, s)
  | .copy => do
      let i ← s.copied.head?
      let nh ← s.handlers.heap i
      return (.ent (some nh), s)
  | .next =>
      match s.copied with
      | [] => none
      | i :: copied => do
          let handlers ← s.handlers.free i
          return (.ret 0, { s with handlers, copied })

-- ============================================================================
-- The two levels
-- ============================================================================

/-- Both are in the same state: `ents` are the structures in the table with their
    addresses, `out` those that only the array points to. -/
structure Shows (s : PullStore) (v : PullView) (ents out : List (Nat × PullEnt)) : Prop where
  holds : s.handlers.Holds hashWord PullEnt.fd ents out
  table : v.net.table = ents.map (·.2)
  copied : s.copied = out.map (·.1)
  copies : v.copied = out.map (·.2)
  fdCnt : v.net.fdCnt = s.fdCnt
  epoll : v.net.epoll = s.epoll
  fds : v.net.fds = s.fds

variable {s : PullStore} {v : PullView} {ents out : List (Nat × PullEnt)} {fd : Fd}

theorem shows_init : init.Shows PullView.init [] [] where
  holds := KeyTable.holds_init
  table := rfl
  copied := rfl
  copies := rfl
  fdCnt := rfl
  epoll := rfl
  fds := rfl

theorem Shows.pullFind (h : s.Shows v ents out) (fd : Fd) :
    v.net.pullFind fd = (ents.map (·.2)).find? fun e => e.fd = fd := by
  rw [Net.pullFind, h.table]

/-- A lookup finds no structure, or the one that the list has. -/
theorem Shows.find (h : s.Shows v ents out) (fd : Fd) :
    (s.hashFindInt fd = none ∧ v.net.pullFind fd = none ∧ ∀ e ∈ ents, e.2.fd ≠ fd) ∨
      ∃ e ∈ ents, e.2.fd = fd ∧ s.hashFindInt fd = some (KeyTable.slotOf PullEnt.fd e) ∧
        s.handlers.heap e.1 = some e.2 ∧ v.net.pullFind fd = some e.2 := by
  rw [h.pullFind]
  exact h.holds.find_spec fd

-- ============================================================================
-- net_pull_add
-- ============================================================================

theorem netPullAdd_new {a : Nat} {err : Option (ClientId × ConnIx)}
    (hfind : s.hashFindInt fd = none) :
    s.netPullAdd a true fd err = { s with
      epoll := Function.update s.epoll fd true
      handlers := s.handlers.add hashWord a fd { fd, rd := none, wr := none, err }
      fdCnt := s.fdCnt + 1 } := by
  rw [netPullAdd, if_pos rfl, hfind]

/-- The handlers of an entry that is there stay. -/
theorem netPullAdd_found {a : Nat} {err : Option (ClientId × ConnIx)} {k : KeySlot Fd}
    (hfind : s.hashFindInt fd = some k) :
    s.netPullAdd a true fd err = { s with
      epoll := Function.update s.epoll fd true, fdCnt := s.fdCnt + 1 } := by
  rw [netPullAdd, if_pos rfl, hfind]

theorem Shows.add (h : s.Shows v ents out) {a : Nat} (hfree : s.handlers.heap a = none) (ok : Bool)
    (fd : Fd) (err : Option (ClientId × ConnIx)) :
    ∃ ents', (s.netPullAdd a ok fd err).Shows { v with net := v.net.netPullAdd ok fd err } ents'
      out := by
  cases ok with
  | false => exact ⟨ents, h⟩
  | true =>
      have hepoll : (v.net.netPullAdd true fd err).epoll = Function.update s.epoll fd true := by
        rw [← h.epoll]
        rfl
      have hcnt : (v.net.netPullAdd true fd err).fdCnt = s.fdCnt + 1 := by
        rw [← h.fdCnt]
        rfl
      rcases h.find fd with ⟨hfind, hnone, hnew⟩ | ⟨e, -, -, hfind, -, hsome⟩
      · have hadd := h.holds.add (v := ⟨fd, none, none, err⟩) hfree hnew
        rw [netPullAdd_new hfind]
        refine ⟨_, hadd, ?_, h.copied, h.copies, hcnt, hepoll, h.fds⟩
        simp only [Net.netPullAdd, hnone, if_true, Option.isNone_none, List.map_append, h.table]
        rfl
      · rw [netPullAdd_found hfind]
        refine ⟨_, h.holds, ?_, h.copied, h.copies, hcnt, hepoll, h.fds⟩
        simp only [Net.netPullAdd, hsome, if_true, Option.isNone_some, Bool.false_eq_true,
          if_false]
        exact h.table

-- ============================================================================
-- net_pull_set_handler and net_pull_work
-- ============================================================================

theorem setFlags_fd (e : PullEnt) (rd wr : Bool) (f : Option Handler) :
    (e.setFlags rd wr f).fd = e.fd := by
  cases rd <;> cases wr <;> rfl

/-- The assignments of net_pull_set_handler, or of net_pull_work. -/
theorem Shows.write (h : s.Shows v ents out) {e : Nat × PullEnt} (he : e ∈ ents) (rd wr : Bool)
    (f : Option Handler) :
    ∃ handlers ents', s.handlers.write e.1 (e.2.setFlags rd wr f) = some handlers ∧
      { s with handlers }.Shows
        { v with net := PullView.netPullSetHandler v.net e.2.fd rd wr f } ents' out := by
  obtain ⟨t, hwrite, ht⟩ := h.holds.write he fun x => setFlags_fd x rd wr f
  obtain ⟨hcnt, hepoll, hfds⟩ := PullView.setHandler_rest v.net e.2.fd rd wr f
  refine ⟨t, _, hwrite, ht, ?_, h.copied, h.copies, hcnt.trans h.fdCnt, hepoll.trans h.epoll,
    hfds.trans h.fds⟩
  rw [PullView.setHandler_table, h.table, KeyTable.map_rewrite]

/-- Without an entry nothing is set. -/
theorem Shows.noEnt (h : s.Shows v ents out) (hnone : ∀ e ∈ ents, e.2.fd ≠ fd) (rd wr : Bool)
    (f : Option Handler) :
    s.Shows { v with net := PullView.netPullSetHandler v.net fd rd wr f } ents out := by
  obtain ⟨hcnt, hepoll, hfds⟩ := PullView.setHandler_rest v.net fd rd wr f
  refine ⟨h.holds, ?_, h.copied, h.copies, hcnt.trans h.fdCnt, hepoll.trans h.epoll,
    hfds.trans h.fds⟩
  rw [PullView.setHandler_table, h.table, List.map_map]
  apply List.map_congr_left
  intro e he
  exact if_neg (hnone e he)

theorem Shows.setHandler (h : s.Shows v ents out) (fd : Fd) (rd wr : Bool) (f : Option Handler) :
    ∃ s' ents', s.netPullSetHandler fd rd wr f =
        some (if (v.net.pullFind fd).isSome then 0 else -1, s') ∧
      s'.Shows { v with net := PullView.netPullSetHandler v.net fd rd wr f } ents' out := by
  rcases h.find fd with ⟨hfind, hview, hnone⟩ | ⟨e, he, rfl, hfind, hread, hview⟩
  · refine ⟨s, ents, ?_, h.noEnt hnone rd wr f⟩
    simp only [netPullSetHandler, hfind, hview]
    rfl
  · obtain ⟨t, ents', hwrite, ht⟩ := h.write he rd wr f
    refine ⟨_, ents', ?_, ht⟩
    simp only [netPullSetHandler, hfind, hview, KeyTable.slotOf, hread, Option.bind_eq_bind,
      Option.bind_some, hwrite]
    rfl

theorem Shows.take (h : s.Shows v ents out) (fd : Fd) :
    ∃ s' ents', s.take fd = some (v.net.pullFind fd, s') ∧
      s'.Shows { v with net := PullView.netPullSetHandler v.net fd true true none } ents' out := by
  rcases h.find fd with ⟨hfind, hview, hnone⟩ | ⟨e, he, rfl, hfind, hread, hview⟩
  · refine ⟨s, ents, ?_, h.noEnt hnone true true none⟩
    simp only [PullStore.take, hfind, hview]
  · obtain ⟨t, ents', hwrite, ht⟩ := h.write he true true none
    refine ⟨_, ents', ?_, ht⟩
    simp only [PullStore.take, hfind, hview, KeyTable.slotOf, hread, Option.bind_eq_bind,
      Option.bind_some, hwrite]
    rfl

-- ============================================================================
-- net_pull_del
-- ============================================================================

theorem Shows.del (h : s.Shows v ents out) (fd : Fd) :
    ∃ s' ents', s.netPullDel fd =
        some (if (v.net.pullFind fd).isSome && v.net.epoll fd then 0 else -1, s') ∧
      s'.Shows { v with net := v.net.netPullDel fd } ents' out := by
  rcases h.find fd with ⟨hfind, hview, -⟩ | ⟨e, he, rfl, hfind, -, hview⟩
  · refine ⟨s, ents, ?_, ?_⟩
    · simp only [netPullDel, hfind, hview]
      rfl
    · simp only [Net.netPullDel, hview]
      exact h
  · cases hepoll : s.epoll e.2.fd with
    | false =>
        have hview' : v.net.epoll e.2.fd = false := by rw [h.epoll, hepoll]
        refine ⟨s, ents, ?_, ?_⟩
        · simp only [netPullDel, hfind, hview, hepoll, hview', Bool.and_false]
          rfl
        · simp only [Net.netPullDel, hview', Bool.and_false]
          exact h
    | true =>
        have hview' : v.net.epoll e.2.fd = true := by rw [h.epoll, hepoll]
        obtain ⟨t, hfree, ht⟩ := h.holds.remove he
        refine ⟨{ s with
          epoll := Function.update s.epoll e.2.fd false, handlers := t, fdCnt := s.fdCnt - 1 },
          _, ?_, ht, ?_, h.copied, h.copies, ?_, ?_, ?_⟩
        · have haddr : (KeyTable.slotOf PullEnt.fd e).addr = e.1 := rfl
          simp only [netPullDel, hfind, hview, hepoll, hview', if_true, haddr, hfree]
          rfl
        all_goals simp only [Net.netPullDel, hview, hview', Option.isSome_some, Bool.and_self,
          if_true]
        · rw [h.table, KeyTable.map_without]
        · rw [h.fdCnt]
        · rw [h.epoll]
        · exact h.fds

-- ============================================================================
-- net_pull_done
-- ============================================================================

/-- Every entry of the table is closed, and its address is put into the array. -/
theorem closeEnts (s : PullStore) (net : Net) (ents : List (Nat × PullEnt))
    (hread : ∀ e ∈ ents, s.handlers.heap e.1 = some e.2) (hepoll : net.epoll = s.epoll)
    (hfds : net.fds = s.fds) :
    (ents.map (KeyTable.slotOf PullEnt.fd)).foldlM closeEnt s = some { s with
      copied := s.copied ++ ents.map (·.1)
      fds := ((ents.map (·.2)).foldl (fun net e => net.sysClose e.fd) net).fds
      epoll := ((ents.map (·.2)).foldl (fun net e => net.sysClose e.fd) net).epoll } := by
  induction ents generalizing s net with
  | nil =>
      show some s = some _
      rw [List.map_nil, List.map_nil, List.append_nil, List.foldl_nil, hepoll, hfds]
  | cons e ents ih =>
      have hhead := hread e List.mem_cons_self
      have htail : ∀ x ∈ ents, s.handlers.heap x.1 = some x.2 := fun x hx =>
        hread x (List.mem_cons_of_mem e hx)
      let s' : PullStore := { s with
        copied := s.copied ++ [e.1]
        fds := Function.update s.fds e.2.fd none
        epoll := Function.update s.epoll e.2.fd false }
      have hclose : closeEnt s (KeyTable.slotOf PullEnt.fd e) = some s' := by
        simp only [closeEnt, KeyTable.slotOf, hhead]
        rfl
      have hepoll' : (net.sysClose e.2.fd).epoll = s'.epoll := by
        rw [Net.sysClose, hepoll]
      have hfds' : (net.sysClose e.2.fd).fds = s'.fds := by
        rw [Net.sysClose, hfds]
      rw [List.map_cons, List.foldlM_cons, hclose, Option.bind_eq_bind, Option.bind_some,
        ih s' (net.sysClose e.2.fd) htail hepoll' hfds']
      simp only [s', List.map_cons, List.foldl_cons, List.append_assoc, List.singleton_append]

theorem foldl_sysClose (l : List PullEnt) (net : Net) :
    (l.foldl (fun net e => net.sysClose e.fd) net).fdCnt = net.fdCnt := by
  induction l generalizing net with
  | nil => rfl
  | cons e l ih => exact ih (net.sysClose e.fd)

theorem Shows.done (h : s.Shows v ents []) :
    ∃ s', s.netPullDone = some s' ∧ s'.Shows v.netPullDone [] ents := by
  have hcopied : s.copied = [] := h.copied
  have hloop := closeEnts s v.net ents (fun e he => h.holds.read_ent he) h.epoll h.fds
  have hclear := h.holds.clear
  rw [List.append_nil] at hclear
  rw [netPullDone, h.holds.items, hloop]
  refine ⟨_, rfl, hclear, rfl, ?_, h.table, ?_, ?_, ?_⟩
  · show s.copied ++ _ = _
    rw [hcopied, List.nil_append]
  · exact (foldl_sysClose _ _).trans h.fdCnt
  · rw [← h.table]
    rfl
  · rw [← h.table]
    rfl

-- ============================================================================
-- Every call
-- ============================================================================

/-- `mem_alloc` returns memory that is not in use. -/
def allocOk (x : PullStore × PullView) : PullCmd → Bool
  | .add a _ _ _ => (x.1.handlers.heap a).isNone
  | _ => true

/-- What the list does the table in memory does, too, with the same result. -/
theorem Shows.exec {v' : PullView} {c : PullCmd} {r : PullAns} (h : s.Shows v ents out)
    (halloc : allocOk (s, v) c = true) (hv : v.exec c = some (r, v')) :
    ∃ s' ents' out', s.exec c = some (r, s') ∧ s'.Shows v' ents' out' := by
  cases c with
  | sysOpen fd o =>
      cases hv
      refine ⟨_, ents, out, rfl, h.holds, h.table, h.copied, h.copies, h.fdCnt, h.epoll, ?_⟩
      show Function.update v.net.fds fd (some o) = _
      rw [h.fds]
  | sysClose fd =>
      cases hv
      refine ⟨_, ents, out, rfl, h.holds, h.table, h.copied, h.copies, h.fdCnt, ?_, ?_⟩
      · show Function.update v.net.epoll fd false = _
        rw [h.epoll]
      · show Function.update v.net.fds fd none = _
        rw [h.fds]
  | add a ok fd err =>
      cases hv
      obtain ⟨ents', hs⟩ := h.add (Option.isNone_iff_eq_none.mp halloc) ok fd err
      exact ⟨_, ents', out, rfl, hs⟩
  | setHandler fd rd wr f =>
      cases hv
      obtain ⟨s', ents', hset, hs⟩ := h.setHandler fd rd wr f
      exact ⟨s', ents', out, by rw [PullStore.exec, hset]; rfl, hs⟩
  | del fd =>
      cases hv
      obtain ⟨s', ents', hdel, hs⟩ := h.del fd
      exact ⟨s', ents', out, by rw [PullStore.exec, hdel]; rfl, hs⟩
  | take fd =>
      cases hv
      obtain ⟨s', ents', htake, hs⟩ := h.take fd
      exact ⟨s', ents', out, by rw [PullStore.exec, htake]; rfl, hs⟩
  | done =>
      obtain ⟨hcopied, heq⟩ := Option.ite_none_right_eq_some.mp hv
      cases heq
      have hout : out = [] := List.map_eq_nil_iff.mp (h.copies.symm.trans hcopied)
      subst hout
      obtain ⟨s', hdone, hs⟩ := h.done
      exact ⟨s', [], ents, by rw [PullStore.exec, hdone]; rfl, hs⟩
  | copy =>
      cases out with
      | nil =>
          rw [PullView.exec, h.copies] at hv
          cases hv
      | cons e out =>
          have hread := h.holds.read (e := e) (List.mem_append_right ents List.mem_cons_self)
          rw [PullView.exec, h.copies] at hv
          cases hv
          refine ⟨s, ents, e :: out, ?_, h⟩
          simp only [PullStore.exec, h.copied, List.map_cons, List.head?_cons]
          show (s.handlers.heap e.1).bind _ = _
          rw [hread]
          rfl
  | next =>
      cases out with
      | nil =>
          simp only [PullView.exec, h.copies, List.map_nil] at hv
          cases hv
      | cons e out =>
          simp only [PullView.exec, h.copies, List.map_cons] at hv
          cases hv
          obtain ⟨t, hfree, ht⟩ := h.holds.freeOut
          refine ⟨{ s with handlers := t, copied := out.map (·.1) }, ents, out, ?_,
            ht, h.table, rfl, rfl, h.fdCnt, h.epoll, h.fds⟩
          simp only [PullStore.exec, h.copied, List.map_cons, hfree]
          rfl

/-- One call on both. -/
def both (x : PullStore × PullView) (c : PullCmd) : Option (PullStore × PullView) := do
  let s ← x.1.exec c
  let v ← x.2.exec c
  return (s.2, v.2)

theorem shows_of_run {x : PullStore × PullView}
    (h : Run both (fun x c => allocOk x c) (init, PullView.init) x) :
    ∃ ents out, x.1.Shows x.2 ents out := by
  apply h.invariant (fun x => ∃ ents out, x.1.Shows x.2 ents out)
  · exact ⟨[], [], shows_init⟩
  · rintro x x' c ⟨ents, out, hx⟩ halloc hs
    obtain ⟨⟨r, s⟩, hexec, hs⟩ := Option.bind_eq_some_iff.mp hs
    obtain ⟨⟨r', v⟩, hview, hs⟩ := Option.bind_eq_some_iff.mp hs
    cases hs
    obtain ⟨s', ents', out', hexec', hx'⟩ := hx.exec halloc hview
    rw [hexec] at hexec'
    cases hexec'
    exact ⟨ents', out', hx'⟩

/-- The structures the program still points to. -/
def addrs (s : PullStore) : List Nat := s.handlers.addrs ++ s.copied

/-- Whatever the handlers call, while net_pull_work and net_pull_done go through their
    entries, no freed entry is used and none is freed twice; every call and every copy
    gives what the list gives; and what is allocated is in the table or in the array, once. -/
theorem netPull_stored {x : PullStore × PullView}
    (h : Run both (fun x c => allocOk x c) (init, PullView.init) x) :
    (∀ c r v', allocOk x c = true → x.2.exec c = some (r, v') →
        ∃ s', x.1.exec c = some (r, s')) ∧
      x.1.handlers.contents = some x.2.net.table ∧
      x.1.copied.mapM x.1.handlers.heap = some x.2.copied ∧
      x.1.addrs.Nodup ∧
      ∀ a, (x.1.handlers.heap a).isSome = true ↔ a ∈ x.1.addrs := by
  obtain ⟨ents, out, hx⟩ := shows_of_run h
  have haddrs : x.1.addrs = (ents ++ out).map (·.1) := by
    rw [addrs, hx.holds.addrs_eq, hx.copied, List.map_append]
  rw [haddrs]
  refine ⟨?_, ?_, ?_, hx.holds.addrs, fun a => hx.holds.isSome_iff⟩
  · intro c r v' halloc hv
    obtain ⟨s', _, _, hs, -⟩ := hx.exec halloc hv
    exact ⟨s', hs⟩
  · rw [hx.holds.contents, hx.table]
  · rw [hx.copied, hx.copies]
    exact hx.holds.mapM_read fun e he => List.mem_append_right ents he

/-- A handler that net_pull_done calls registers a descriptor, which is in the new table
    while the old entry is in the array. -/
theorem netPull_stored_done : ∃ x : PullStore × PullView,
    Run both (fun x c => allocOk x c) (init, PullView.init) x ∧ x.1.addrs = [30, 20] ∧
      ∃ l, x.1.handlers.contents = some l ∧ l.map PullEnt.fd = [7] := by
  have hrun : (follow both allocOk (init, PullView.init)
      [.sysOpen 6 .signal, .add 20 true 6 none, .setHandler 6 true false (some .dns), .done,
        .copy, .sysOpen 7 .signal, .add 30 true 7 none]).any
      (fun x => x.1.addrs = [30, 20] && x.2.net.table.map PullEnt.fd = [7]) = true := by
    decide +kernel
  obtain ⟨x, hx, hp⟩ := exists_run_of_follow _ hrun
  obtain ⟨haddrs, hfds⟩ := Bool.and_eq_true_iff.mp hp
  exact ⟨x, hx, of_decide_eq_true haddrs, x.2.net.table, (netPull_stored hx).2.1,
    of_decide_eq_true hfds⟩

end PullStore

end HttpProxy
