/-
  HttpProxy.Dispatch.Pull

  core/net_pull.c with handlers that do whatever they like, and the descriptors of
  the process: a handler may open and close descriptors and call net_pull_add,
  net_pull_set_handler and net_pull_del for any number, before it returns.

  Two things are recorded that the C code does not know.  Every call that
  registers a handler has a number, and every descriptor that is opened is a new
  instance; a handler in the table remembers both (`Reg`), an event of epoll_wait
  the instance it was reported for, and `calls` which handlers were called for
  which events.  No step reads any of it to decide something.
-/

import HttpProxy.Lib.Run
import HttpProxy.System.Ops

namespace HttpProxy

open Lib

-- ============================================================================
-- The table
-- ============================================================================

/-- The three handlers of a descriptor. -/
inductive PullKind where
  | err
  | read
  | write
deriving DecidableEq

/-- A handler with its data: the call that registered it, and which instance of the
    descriptor was open then. -/
structure Reg (H : Type) where
  handler : H
  no : Nat
  inst : Option Nat
deriving DecidableEq

/-- `struct net_handler_t` -/
structure PullHandlers (H : Type) where
  hErr : Option (Reg H)
  hRead : Option (Reg H)
  hWrite : Option (Reg H)
deriving DecidableEq

/-- `struct epoll_event`; `err` is `proxy_epoll_err`. -/
structure PullEvent where
  fd : Fd
  err : Bool
  inst : Option Nat
deriving DecidableEq

/-- A handler that was called, and the event it was called for. -/
structure PullCall (H : Type) where
  ev : PullEvent
  kind : PullKind
  reg : Reg H
deriving DecidableEq

namespace PullHandlers

variable {H : Type}

def get (h : PullHandlers H) : PullKind → Option (Reg H)
  | .err => h.hErr
  | .read => h.hRead
  | .write => h.hWrite

/-- `h->h_read = h->h_write = h->d_read = h->d_write = NULL` -/
def clear (h : PullHandlers H) : PullHandlers H := { h with hRead := none, hWrite := none }

/-- The two assignments of `net_pull_set_handler`. -/
def set (h : PullHandlers H) (rd wr : Bool) (r : Option (Reg H)) : PullHandlers H :=
  let h := if rd then { h with hRead := r } else h
  if wr then { h with hWrite := r } else h

end PullHandlers

/-- Where net_pull_work is. -/
inductive PullPc (H : Type) where
  | outside
  /-- the head of the loop, with the rest of the batch -/
  | next (evs : List PullEvent)
  /-- at a handler of the copied entry -/
  | due (k : PullKind) (ev : PullEvent) (nh : PullHandlers H) (evs : List PullEvent)
  /-- inside that handler -/
  | inside (k : PullKind) (ev : PullEvent) (nh : PullHandlers H) (evs : List PullEvent)
deriving DecidableEq

/-- The events of the batch that net_pull_work has not taken yet. -/
def PullPc.todo {H : Type} : PullPc H → List PullEvent
  | .outside => []
  | .next evs => evs
  | .due _ _ _ evs => evs
  | .inside _ _ _ evs => evs

/-- Handlers are running, or nothing of net_pull_work is. -/
def PullPc.free {H : Type} : PullPc H → Bool
  | .outside => true
  | .inside _ _ _ _ => true
  | _ => false

/-- The static variables of core/net_pull.c, and the descriptors: the instance that is
    open under a number, and the numbers registered with epoll. -/
structure PullModule (H : Type) where
  handlers : Fd → Option (PullHandlers H)
  fdCnt : Int
  fds : Fd → Option Nat
  epoll : Fd → Bool
  ninst : Nat
  nreg : Nat
  pc : PullPc H
  calls : List (PullCall H)

-- ============================================================================
-- The functions
-- ============================================================================

namespace PullModule

variable {H : Type}

def init : PullModule H where
  handlers := fun _ => none
  fdCnt := 0
  fds := fun _ => none
  epoll := fun _ => false
  ninst := 0
  nreg := 0
  pc := .outside
  calls := []

/-- `socket` or `accept` returns `fd`. -/
def sysOpen (m : PullModule H) (fd : Fd) : PullModule H :=
  { m with fds := Function.update m.fds fd (some m.ninst), ninst := m.ninst + 1 }

/-- `close(fd)`: epoll forgets the number. -/
def sysClose (m : PullModule H) (fd : Fd) : PullModule H :=
  { m with fds := Function.update m.fds fd none, epoll := Function.update m.epoll fd false }

/-- Whether `epoll_ctl` can add `fd`: it may fail in any case, and fails for a number
    that is not open or registered already. -/
def epollAdds (m : PullModule H) (fd : Fd) (ok : Bool) : Bool :=
  ok && (m.fds fd).isSome && !m.epoll fd

/-- A handler as it is registered for `fd` now. -/
def reg (m : PullModule H) (fd : Fd) (h : H) : Reg H :=
  { handler := h, no := m.nreg, inst := m.fds fd }

/-- `net_pull_add` -/
def netPullAdd (m : PullModule H) (fd : Fd) (hErr : Option H) (ok : Bool) : PullModule H :=
  if m.epollAdds fd ok then
    let h : PullHandlers H :=
      { hErr := hErr.map (m.reg fd), hRead := none, hWrite := none }
    { m with
      epoll := Function.update m.epoll fd true
      handlers := Function.update m.handlers fd (some ((m.handlers fd).getD h))
      fdCnt := m.fdCnt + 1
      nreg := m.nreg + 1 }
  else m

/-- `net_pull_set_handler` with `flag` split into EPOLLIN and EPOLLOUT. -/
def netPullSetHandler (m : PullModule H) (fd : Fd) (rd wr : Bool) (handler : Option H) :
    PullModule H :=
  match m.handlers fd with
  | none => m
  | some h =>
      { m with
        handlers := Function.update m.handlers fd (some (h.set rd wr (handler.map (m.reg fd))))
        nreg := m.nreg + 1 }

/-- `net_pull_del`: `epoll_ctl` fails for a number that is not registered. -/
def netPullDel (m : PullModule H) (fd : Fd) : PullModule H :=
  if (m.handlers fd).isSome && m.epoll fd then
    { m with
      epoll := Function.update m.epoll fd false
      handlers := Function.update m.handlers fd none
      fdCnt := m.fdCnt - 1 }
  else m

/-- What `epoll_wait` reports: numbers registered with it, and the descriptors open under
    them. -/
def epollWait (m : PullModule H) (evs : List (Fd × Bool)) : Option (PullModule H) :=
  if m.fdCnt ≠ 0 ∧ ∀ e ∈ evs, m.epoll e.1 = true then
    some { m with pc := .next (evs.map fun e => ⟨e.1, e.2, m.fds e.1⟩) }
  else none

/-- The head of the loop of `net_pull_work`: copy the entry and clear the live one. -/
def fetch (m : PullModule H) : List PullEvent → PullModule H
  | [] => { m with pc := .outside }
  | ev :: evs =>
      match m.handlers ev.fd with
      | none => { m with pc := .next evs }
      | some h =>
          { m with
            handlers := Function.update m.handlers ev.fd (some h.clear)
            pc := .due .err ev h evs }

/-- Where `net_pull_work` goes behind a handler. -/
def after (ev : PullEvent) (nh : PullHandlers H) (evs : List PullEvent) : PullKind → PullPc H
  | .err => .due .read ev nh evs
  | .read => .due .write ev nh evs
  | .write => .next evs

/-- The handler of the copied entry that is called, if one is. -/
def chosen (k : PullKind) (ev : PullEvent) (nh : PullHandlers H) : Option (Reg H) :=
  match k with
  | .err => if ev.err then nh.hErr else none
  | k => nh.get k

/-- Call a handler of the copied entry, or go past it. -/
def call (m : PullModule H) (k : PullKind) (ev : PullEvent) (nh : PullHandlers H)
    (evs : List PullEvent) : PullModule H :=
  match chosen k ev nh with
  | none => { m with pc := after ev nh evs k }
  | some r => { m with pc := .inside k ev nh evs, calls := m.calls ++ [⟨ev, k, r⟩] }

/-- `net_pull_work` goes on: a handler that is running returns. -/
def work (m : PullModule H) : Option (PullModule H) :=
  match m.pc with
  | .outside => none
  | .next evs => some (m.fetch evs)
  | .due k ev nh evs => some (m.call k ev nh evs)
  | .inside k ev nh evs => some { m with pc := after ev nh evs k }

end PullModule

/-- A call from outside or from a handler, or the next thing `net_pull_work` does. -/
inductive PullOp (H : Type) where
  | sysOpen (fd : Fd)
  | sysClose (fd : Fd)
  | add (fd : Fd) (hErr : Option H) (ok : Bool)
  | setHandler (fd : Fd) (rd wr : Bool) (handler : Option H)
  | del (fd : Fd)
  | wait (evs : List (Fd × Bool))
  | next

namespace PullModule

variable {H : Type}

/-- A call that handlers can make, too. -/
def perform (m : PullModule H) : PullOp H → Option (PullModule H)
  | .sysOpen fd => if (m.fds fd).isSome then none else some (m.sysOpen fd)
  | .sysClose fd => some (m.sysClose fd)
  | .add fd hErr ok => some (m.netPullAdd fd hErr ok)
  | .setHandler fd rd wr handler => some (m.netPullSetHandler fd rd wr handler)
  | .del fd => some (m.netPullDel fd)
  | .wait _ => none
  | .next => none

def step (m : PullModule H) : PullOp H → Option (PullModule H)
  | .next => m.work
  | .wait evs =>
      match m.pc with
      | .outside => m.epollWait evs
      | _ => none
  | op => if m.pc.free then m.perform op else none

/-- Every sequence of calls and batches. -/
abbrev Reachable (m : PullModule H) : Prop := Run step (fun _ _ => True) init m

-- ============================================================================
-- What a step can do
-- ============================================================================

/-- The calls that are made, with what they leave. -/
inductive Took (m : PullModule H) : PullOp H → PullModule H → Prop where
  | sysOpen {fd : Fd} : (m.fds fd).isSome = false → Took m (.sysOpen fd) (m.sysOpen fd)
  | sysClose {fd : Fd} : Took m (.sysClose fd) (m.sysClose fd)
  | add {fd : Fd} {hErr : Option H} {ok : Bool} :
      Took m (.add fd hErr ok) (m.netPullAdd fd hErr ok)
  | setHandler {fd : Fd} {rd wr : Bool} {handler : Option H} :
      Took m (.setHandler fd rd wr handler) (m.netPullSetHandler fd rd wr handler)
  | del {fd : Fd} : Took m (.del fd) (m.netPullDel fd)
  | wait {evs : List (Fd × Bool)} {m' : PullModule H} : m.pc = .outside →
      m.epollWait evs = some m' → Took m (.wait evs) m'
  | next {m' : PullModule H} : m.work = some m' → Took m .next m'

theorem step_took {m m' : PullModule H} {op : PullOp H} (hs : m.step op = some m') :
    Took m op m' := by
  have hperform (hop : (if m.pc.free then m.perform op else none) = some m') :
      m.perform op = some m' := (Option.ite_none_right_eq_some.mp hop).2
  cases op with
  | sysOpen fd =>
      obtain ⟨hfree, hopen⟩ := Option.ite_none_left_eq_some.mp (hperform hs)
      obtain rfl := Option.some.inj hopen
      exact .sysOpen (Bool.not_eq_true _ ▸ hfree)
  | sysClose fd =>
      obtain rfl := Option.some.inj (hperform hs)
      exact .sysClose
  | add fd hErr ok =>
      obtain rfl := Option.some.inj (hperform hs)
      exact .add
  | setHandler fd rd wr handler =>
      obtain rfl := Option.some.inj (hperform hs)
      exact .setHandler
  | del fd =>
      obtain rfl := Option.some.inj (hperform hs)
      exact .del
  | wait evs =>
      cases hpc : m.pc with
      | outside =>
          rw [step, hpc] at hs
          exact .wait hpc hs
      | next evs => simp [step, hpc] at hs
      | due k ev nh evs => simp [step, hpc] at hs
      | inside k ev nh evs => simp [step, hpc] at hs
  | next => exact .next hs

-- ============================================================================
-- What the functions leave in the table
-- ============================================================================

/-- A handler of a descriptor that is in the table. -/
def live (m : PullModule H) (fd : Fd) (k : PullKind) : Option (Reg H) :=
  (m.handlers fd).bind (·.get k)

variable {m : PullModule H} {fd fd' : Fd} {k : PullKind} {r : Reg H}

/-- What a call registers: a handler for the descriptor that is open, under the next
    number. -/
def Newly (m : PullModule H) (fd : Fd) (r : Reg H) : Prop := r.no = m.nreg ∧ r.inst = m.fds fd

theorem live_add {hErr : Option H} {ok : Bool} (h : (m.netPullAdd fd hErr ok).live fd' k = some r) :
    m.live fd' k = some r ∨ fd' = fd ∧ k = .err ∧ m.Newly fd r := by
  rw [netPullAdd] at h
  split at h
  · by_cases hfd : fd' = fd
    · subst hfd
      cases hfind : m.handlers fd' with
      | some e =>
          simp only [live, hfind, Function.update_self, Option.getD_some] at h ⊢
          exact .inl h
      | none =>
          simp only [live, hfind, Function.update_self, Option.getD_none, Option.bind_some] at h
          cases k with
          | err =>
              obtain ⟨f, -, rfl⟩ := Option.map_eq_some_iff.mp h
              exact .inr ⟨rfl, rfl, rfl, rfl⟩
          | read => exact absurd h (by simp [PullHandlers.get])
          | write => exact absurd h (by simp [PullHandlers.get])
    · simp only [live, Function.update_of_ne hfd] at h
      exact .inl h
  · exact .inl h

/-- An entry that is there stays. -/
theorem add_live {hErr : Option H} {ok : Bool} (h : m.live fd' k = some r) :
    (m.netPullAdd fd hErr ok).live fd' k = some r := by
  rw [netPullAdd]
  split
  · by_cases hfd : fd' = fd
    · subst hfd
      obtain ⟨e, he, hget⟩ := Option.bind_eq_some_iff.mp h
      simp only [live, Function.update_self, he, Option.getD_some, Option.bind_some]
      exact hget
    · simp only [live, Function.update_of_ne hfd]
      exact h
  · exact h

theorem set_get {e : PullHandlers H} {rd wr : Bool} {f : Option (Reg H)} :
    (e.set rd wr f).get k =
      if k = .read ∧ rd = true ∨ k = .write ∧ wr = true then f else e.get k := by
  cases k <;> cases rd <;> cases wr <;> rfl

theorem live_setHandler {rd wr : Bool} {f : Option H} :
    (m.netPullSetHandler fd rd wr f).live fd' k =
      if fd' = fd ∧ (k = .read ∧ rd = true ∨ k = .write ∧ wr = true) ∧ (m.handlers fd).isSome = true
        then f.map (m.reg fd) else m.live fd' k := by
  rw [netPullSetHandler]
  cases hfind : m.handlers fd with
  | none => simp
  | some e =>
      by_cases hfd : fd' = fd
      · subst hfd
        simp only [live, Function.update_self, Option.bind_some, set_get, hfind]
        simp
      · simp only [live, Function.update_of_ne hfd]
        simp [hfd]

theorem live_del (h : (m.netPullDel fd).live fd' k = some r) : m.live fd' k = some r := by
  rw [netPullDel] at h
  split at h
  · by_cases hfd : fd' = fd
    · simp [live, hfd] at h
    · simp only [live, Function.update_of_ne hfd] at h
      exact h
  · exact h

theorem del_live (h : m.live fd' k = some r) (hfd : fd' ≠ fd) :
    (m.netPullDel fd).live fd' k = some r := by
  rw [netPullDel]
  split
  · simp only [live, Function.update_of_ne hfd]
    exact h
  · exact h

/-- The entry of an event loses its read and write handlers. -/
theorem live_clear {e : PullHandlers H} {pc : PullPc H} (hfind : m.handlers fd = some e)
    (h : live { m with handlers := Function.update m.handlers fd (some e.clear), pc } fd' k =
      some r) : m.live fd' k = some r ∧ (fd' = fd → k = .err) := by
  by_cases hfd : fd' = fd
  · subst hfd
    simp only [live, Function.update_self, Option.bind_some] at h
    cases k with
    | err => exact ⟨by rw [live, hfind]; exact h, fun _ => rfl⟩
    | read => exact absurd h (by simp [PullHandlers.clear, PullHandlers.get])
    | write => exact absurd h (by simp [PullHandlers.clear, PullHandlers.get])
  · simp only [live, Function.update_of_ne hfd] at h
    exact ⟨h, fun hc => absurd hc hfd⟩

end PullModule

end HttpProxy
