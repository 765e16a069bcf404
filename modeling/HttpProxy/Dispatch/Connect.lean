/-
  HttpProxy.Dispatch.Connect

  conn_get_by_endpoint of core/conn.c with every exit it has, on top of net_pull.c and
  the descriptors.  While it waits for the connection, other coroutines may do anything.

  A failure that is known at once leaves everything as it was; a failure that is known
  only after the wait deregisters the descriptor and leaves it open (`noTrace_iff`).
-/

import HttpProxy.Dispatch.Pull
import HttpProxy.System.Step

namespace HttpProxy

open Lib

variable {H : Type}

-- ============================================================================
-- conn_get_by_endpoint
-- ============================================================================

/-- What conn_get_by_endpoint works on: the descriptors and net_pull.c, `free_pool` with
    the idle connections of each endpoint, and the connections that are allocated. -/
structure ConnModule (H : Type) where
  pull : PullModule H
  freePool : Endpoint → List ConnIx
  conns : ConnIx → Conn
  nconn : Nat

/-- What `connect` on a non-blocking descriptor returns. -/
inductive ConnectRet where
  | connected
  | inProgress
  | error
deriving DecidableEq

/-- The results of the system calls: `socket` (`none` is -1), the `fcntl`s of
    net_setnonblocking, `connect`, and the `epoll_ctl` of net_pull_add. -/
structure ConnectSys where
  socket : Option Fd
  nonblocking : Bool
  connect : ConnectRet
  epollCtl : Bool

/-- The call has returned a connection or NULL, or it waits for its descriptor. -/
inductive ConnectPoint where
  | returned (conn : Option ConnIx)
  | waiting (fd : Fd) (conn : ConnIx)

namespace ConnModule

/-- conn_addrpool_try_get_and_del -/
def connAddrpoolTryGetAndDel (s : ConnModule H) (ep : Endpoint) : Option (ConnIx × ConnModule H) :=
  match s.freePool ep with
  | [] => none
  | i :: rest => some (i, { s with freePool := Function.update s.freePool ep rest })

/-- `close(fd)` at the label `conn_error`. -/
def connError (s : ConnModule H) (fd : Fd) : ConnModule H := { s with pull := s.pull.sysClose fd }

/-- Allocate the `struct conn` and register its descriptor; `errHandler` is
    conn_err_handler with a connection. -/
def newConn (s : ConnModule H) (errHandler : ConnIx → H) (fd : Fd) (ep : Endpoint) (ok : Bool) :
    ConnModule H :=
  let k : Conn := { fd, stat := .closed, io := ioBufInit, ep, cnt := 1, shut := false }
  { s with
    pull := s.pull.netPullAdd fd (some (errHandler s.nconn)) ok
    conns := Function.update s.conns s.nconn k
    nconn := s.nconn + 1 }

/-- conn_init -/
def connInit (s : ConnModule H) (i : ConnIx) : ConnModule H :=
  { s with conns := Function.update s.conns i { s.conns i with stat := .free, io := ioBufInit } }

/-- conn_get_by_endpoint up to its wait, or to its return if it does not wait;
    `coHandler` is conn_epoll_handler with the coroutine that calls it. -/
def connGetByEndpoint (s : ConnModule H) (errHandler : ConnIx → H) (coHandler : H) (ep : Endpoint)
    (sys : ConnectSys) : ConnectPoint × ConnModule H :=
  match s.connAddrpoolTryGetAndDel ep with
  | some (i, s) =>
      let s := { s with conns := Function.update s.conns i { s.conns i with stat := .used } }
      (.returned (some i),
        { s with pull := s.pull.netPullSetHandler (s.conns i).fd true true none })
  | none =>
      match sys.socket with
      | none => (.returned none, s)
      | some fd =>
          let s := { s with pull := s.pull.sysOpen fd }
          if sys.nonblocking then
            match sys.connect with
            | .error => (.returned none, s.connError fd)
            | .connected =>
                let i := s.nconn
                (.returned (some i), (s.newConn errHandler fd ep sys.epollCtl).connInit i)
            | .inProgress =>
                let i := s.nconn
                let s' := s.newConn errHandler fd ep sys.epollCtl
                -- errno is still EINPROGRESS unless net_pull_add has failed
                if s.pull.epollAdds fd sys.epollCtl then
                  -- async_yield: conn_async_final sets the handler
                  (.waiting fd i,
                    { s' with pull := s'.pull.netPullSetHandler fd true false (some coHandler) })
                else (.returned (some i), s'.connInit i)
          else (.returned none, s.connError fd)

/-- conn_get_by_endpoint behind its wait, which returned `ret`. -/
def connConnected (s : ConnModule H) (fd : Fd) (i : ConnIx) (ret : Int) :
    Option ConnIx × ConnModule H :=
  if ret = -1 then
    -- mem_decref(conn, NULL)
    (none, { s with
      pull := s.pull.netPullDel fd
      conns := Function.update s.conns i { s.conns i with cnt := (s.conns i).cnt - 1 } })
  else (some i, s.connInit i)

/-- `socket` returns a number that is not in use. -/
def Possible (s : ConnModule H) (sys : ConnectSys) : Prop :=
  ∀ fd, sys.socket = some fd → s.pull.fds fd = none

/-- A whole call from `s`: it returns `conn` in state `s'`.  If it waited, then for the
    descriptor `fd`, and the wait ended in state `s₂`: other coroutines may have called
    net_pull.c, opened and closed descriptors, and used the free pool. -/
inductive Call (errHandler : ConnIx → H) (coHandler : H) (ep : Endpoint) (sys : ConnectSys)
    (s : ConnModule H) : Option (Fd × ConnModule H) → Option ConnIx → ConnModule H → Prop where
  | now {conn : Option ConnIx} {s' : ConnModule H} : s.Possible sys →
      s.connGetByEndpoint errHandler coHandler ep sys = (.returned conn, s') →
      Call errHandler coHandler ep sys s none conn s'
  | later {fd : Fd} {i : ConnIx} {s₁ s₂ s' : ConnModule H} {ret : Int} {conn : Option ConnIx} :
      s.Possible sys →
      s.connGetByEndpoint errHandler coHandler ep sys = (.waiting fd i, s₁) →
      Run PullModule.step (fun _ _ => True) s₁.pull s₂.pull →
      s₂.connConnected fd i ret = (conn, s') →
      Call errHandler coHandler ep sys s (some (fd, s₂)) conn s'

end ConnModule

-- ============================================================================
-- Epoll and the descriptors
-- ============================================================================

namespace PullModule

variable {m m' : PullModule H}

/-- The kernel forgets a descriptor that is closed: epoll only watches open ones. -/
def Watches (m : PullModule H) : Prop := ∀ fd, m.epoll fd = true → (m.fds fd).isSome = true

theorem Watches.sysOpen (h : m.Watches) (fd : Fd) : (m.sysOpen fd).Watches := by
  intro fd' hfd'
  by_cases hne : fd' = fd
  · simp [PullModule.sysOpen, hne]
  · simp only [PullModule.sysOpen, Function.update_of_ne hne]
    exact h fd' hfd'

theorem Watches.sysClose (h : m.Watches) (fd : Fd) : (m.sysClose fd).Watches := by
  intro fd' hfd'
  by_cases hne : fd' = fd
  · simp [PullModule.sysClose, hne] at hfd'
  · simp only [PullModule.sysClose, Function.update_of_ne hne] at hfd' ⊢
    exact h fd' hfd'

theorem Watches.add (h : m.Watches) (fd : Fd) (hErr : Option H) (ok : Bool) :
    (m.netPullAdd fd hErr ok).Watches := by
  intro fd' hfd'
  rw [netPullAdd] at hfd' ⊢
  split
  · rename_i hadds
    rw [if_pos hadds] at hfd'
    simp only [epollAdds, Bool.and_eq_true] at hadds
    by_cases hne : fd' = fd
    · rw [hne]
      exact hadds.1.2
    · simp only [Function.update_of_ne hne] at hfd'
      exact h fd' hfd'
  · rename_i hadds
    rw [if_neg hadds] at hfd'
    exact h fd' hfd'

theorem Watches.setHandler (h : m.Watches) (fd : Fd) (rd wr : Bool) (f : Option H) :
    (m.netPullSetHandler fd rd wr f).Watches := by
  rw [netPullSetHandler]
  cases m.handlers fd <;> exact h

theorem Watches.del (h : m.Watches) (fd : Fd) : (m.netPullDel fd).Watches := by
  intro fd' hfd'
  rw [netPullDel] at hfd' ⊢
  split
  · rename_i hdel
    rw [if_pos hdel] at hfd'
    by_cases hne : fd' = fd
    · simp [hne] at hfd'
    · simp only [Function.update_of_ne hne] at hfd'
      exact h fd' hfd'
  · rename_i hdel
    rw [if_neg hdel] at hfd'
    exact h fd' hfd'

theorem Watches.step {op : PullOp H} (h : m.Watches) (hs : m.step op = some m') : m'.Watches := by
  cases op with
  | sysOpen fd =>
      simp only [PullModule.step, PullModule.perform, Option.ite_none_right_eq_some,
        Option.ite_none_left_eq_some, Option.some.injEq] at hs
      exact hs.2.2 ▸ h.sysOpen fd
  | sysClose fd =>
      simp only [PullModule.step, PullModule.perform, Option.ite_none_right_eq_some,
        Option.some.injEq] at hs
      exact hs.2 ▸ h.sysClose fd
  | add fd hErr ok =>
      simp only [PullModule.step, PullModule.perform, Option.ite_none_right_eq_some,
        Option.some.injEq] at hs
      exact hs.2 ▸ h.add fd hErr ok
  | setHandler fd rd wr f =>
      simp only [PullModule.step, PullModule.perform, Option.ite_none_right_eq_some,
        Option.some.injEq] at hs
      exact hs.2 ▸ h.setHandler fd rd wr f
  | del fd =>
      simp only [PullModule.step, PullModule.perform, Option.ite_none_right_eq_some,
        Option.some.injEq] at hs
      exact hs.2 ▸ h.del fd
  | wait evs =>
      cases hpc : m.pc with
      | outside =>
          simp only [PullModule.step, hpc, epollWait, Option.ite_none_right_eq_some,
            Option.some.injEq] at hs
          exact hs.2 ▸ h
      | next evs => simp [PullModule.step, hpc] at hs
      | due k ev nh evs => simp [PullModule.step, hpc] at hs
      | inside k ev nh evs => simp [PullModule.step, hpc] at hs
  | next =>
      have hsame : m'.epoll = m.epoll ∧ m'.fds = m.fds := by
        simp only [PullModule.step, PullModule.work] at hs
        cases hpc : m.pc with
        | outside => simp [hpc] at hs
        | next evs =>
            simp only [hpc, Option.some.injEq] at hs
            subst hs
            cases evs with
            | nil => exact ⟨rfl, rfl⟩
            | cons ev evs =>
                rw [fetch]
                cases m.handlers ev.fd <;> exact ⟨rfl, rfl⟩
        | due k ev nh evs =>
            simp only [hpc, Option.some.injEq] at hs
            subst hs
            rw [call]
            cases chosen k ev nh <;> exact ⟨rfl, rfl⟩
        | inside k ev nh evs =>
            simp only [hpc, Option.some.injEq] at hs
            subst hs
            exact ⟨rfl, rfl⟩
      intro fd hfd
      rw [hsame.1] at hfd
      rw [hsame.2]
      exact h fd hfd

theorem watches_run {m₀ : PullModule H} (h₀ : m₀.Watches)
    (h : Run step (fun _ _ => True) m₀ m) : m.Watches :=
  h.invariant Watches h₀ fun _ _ _ hi _ hs => hi.step hs

theorem watches_init : (init : PullModule H).Watches := fun _ h => absurd h (by simp [init])

end PullModule

-- ============================================================================
-- What a failed call leaves behind
-- ============================================================================

namespace ConnModule

variable {errHandler : ConnIx → H} {coHandler : H} {ep : Endpoint} {sys : ConnectSys}
  {s s' s₂ : ConnModule H} {fd : Fd}

/-- The descriptors, the handler table with `fd_cnt`, and the free pool are the same. -/
structure Same (s s' : ConnModule H) : Prop where
  fds : s'.pull.fds = s.pull.fds
  epoll : s'.pull.epoll = s.pull.epoll
  handlers : s'.pull.handlers = s.pull.handlers
  fdCnt : s'.pull.fdCnt = s.pull.fdCnt
  freePool : s'.freePool = s.freePool

/-- They are the same but for the descriptor `fd`, which has been closed and deregistered
    since. -/
structure Undone (fd : Fd) (s s' : ConnModule H) : Prop where
  fds : s'.pull.fds = Function.update s.pull.fds fd none
  epoll : s'.pull.epoll = Function.update s.pull.epoll fd false
  handlers : s'.pull.handlers = Function.update s.pull.handlers fd none
  fdCnt : s'.pull.fdCnt = s.pull.fdCnt - 1
  freePool : s'.freePool = s.freePool

/-- A call that did not wait left all as it was.  One that waited closed and deregistered
    its descriptor, and left all else as the other coroutines had made it. -/
def NoTrace (s : ConnModule H) (waited : Option (Fd × ConnModule H)) (s' : ConnModule H) : Prop :=
  match waited with
  | none => s.Same s'
  | some (fd, s₂) => s₂.Undone fd s'

/-- Opening and closing a number that was free changes nothing. -/
theorem same_connError (hw : s.pull.Watches) (hfree : s.pull.fds fd = none) :
    s.Same (connError { s with pull := s.pull.sysOpen fd } fd) where
  fds := by
    show Function.update (Function.update s.pull.fds fd _) fd none = s.pull.fds
    rw [Function.update_idem, ← hfree, Function.update_eq_self]
  epoll := by
    show Function.update s.pull.epoll fd false = s.pull.epoll
    have hoff : s.pull.epoll fd = false := by
      cases hepoll : s.pull.epoll fd with
      | false => rfl
      | true =>
          have hopen := hw fd hepoll
          rw [hfree] at hopen
          exact Bool.noConfusion hopen
    rw [← hoff, Function.update_eq_self]
  handlers := rfl
  fdCnt := rfl
  freePool := rfl

theorem same_refl (s : ConnModule H) : s.Same s := ⟨rfl, rfl, rfl, rfl, rfl⟩

/-- net_pull_del does not close the descriptor. -/
theorem not_undone_del (hw : s.pull.Watches)
    (hs : s'.pull = s.pull.netPullDel fd) : ¬ s.Undone fd s' := by
  intro h
  have hfds : s'.pull.fds fd = none := by rw [h.fds, Function.update_self]
  by_cases hdel : ((s.pull.handlers fd).isSome && s.pull.epoll fd) = true
  · rw [hs, PullModule.netPullDel, if_pos hdel] at hfds
    rw [Bool.and_eq_true] at hdel
    have hopen := hw fd hdel.2
    rw [show s.pull.fds fd = none from hfds] at hopen
    exact Bool.noConfusion hopen
  · have hcnt := h.fdCnt
    rw [hs, PullModule.netPullDel, if_neg hdel] at hcnt
    omega

/-- A call that waits has got its descriptor from `socket` and registered it. -/
theorem connGetByEndpoint_waiting {i : ConnIx}
    (h : s.connGetByEndpoint errHandler coHandler ep sys = (.waiting fd i, s')) :
    sys.socket = some fd ∧ sys.nonblocking = true ∧ sys.connect = .inProgress ∧
      s'.pull = ((s.pull.sysOpen fd).netPullAdd fd (some (errHandler s.nconn))
        sys.epollCtl).netPullSetHandler fd true false (some coHandler) := by
  rw [connGetByEndpoint] at h
  cases hpool : s.connAddrpoolTryGetAndDel ep with
  | some x => simp [hpool] at h
  | none =>
      cases hsocket : sys.socket with
      | none => simp [hpool, hsocket] at h
      | some fd' =>
          cases hnon : sys.nonblocking with
          | false => simp [hpool, hsocket, hnon] at h
          | true =>
              cases hconnect : sys.connect with
              | connected => simp [hpool, hsocket, hnon, hconnect] at h
              | error => simp [hpool, hsocket, hnon, hconnect] at h
              | inProgress =>
                  simp only [hpool, hsocket, hnon, hconnect, if_true] at h
                  split at h
                  · simp only [Prod.mk.injEq, ConnectPoint.waiting.injEq] at h
                    obtain ⟨⟨rfl, -⟩, rfl⟩ := h
                    exact ⟨rfl, rfl, rfl, rfl⟩
                  · simp at h

/-- A call that returns NULL at once has failed in `socket`, net_setnonblocking or
    `connect`, and has undone what it did. -/
theorem connGetByEndpoint_null (hw : s.pull.Watches) (hsys : s.Possible sys)
    (h : s.connGetByEndpoint errHandler coHandler ep sys = (.returned none, s')) :
    (sys.socket = none ∨ sys.nonblocking = false ∨ sys.connect = .error) ∧ s.Same s' := by
  rw [connGetByEndpoint] at h
  cases hpool : s.connAddrpoolTryGetAndDel ep with
  | some x => simp [hpool] at h
  | none =>
      cases hsocket : sys.socket with
      | none =>
          simp only [hpool, hsocket, Prod.mk.injEq, true_and] at h
          exact ⟨.inl rfl, h ▸ s.same_refl⟩
      | some fd =>
          have hsame := same_connError hw (hsys fd hsocket)
          cases hnon : sys.nonblocking with
          | false =>
              simp only [hpool, hsocket, hnon, Bool.false_eq_true, if_false, Prod.mk.injEq,
                true_and] at h
              exact ⟨.inr (.inl rfl), h ▸ hsame⟩
          | true =>
              cases hconnect : sys.connect with
              | connected => simp [hpool, hsocket, hnon, hconnect] at h
              | inProgress =>
                  simp only [hpool, hsocket, hnon, hconnect, if_true] at h
                  split at h <;> simp at h
              | error =>
                  simp only [hpool, hsocket, hnon, hconnect, if_true, Prod.mk.injEq,
                    true_and] at h
                  exact ⟨.inr (.inr rfl), h ▸ hsame⟩

/-- A call that fails behind its wait leaves a trace. -/
theorem not_undone_later {i : ConnIx} {s₁ : ConnModule H} {ret : Int} (hw : s.pull.Watches)
    (hget : s.connGetByEndpoint errHandler coHandler ep sys = (.waiting fd i, s₁))
    (hrun : Run PullModule.step (fun _ _ => True) s₁.pull s₂.pull)
    (hret : s₂.connConnected fd i ret = (none, s')) : ¬ s₂.Undone fd s' := by
  have hw₁ : s₁.pull.Watches := by
    rw [(connGetByEndpoint_waiting hget).2.2.2]
    exact ((hw.sysOpen fd).add fd _ _).setHandler fd _ _ _
  have hw₂ : s₂.pull.Watches := PullModule.watches_run hw₁ hrun
  rw [connConnected] at hret
  split at hret
  · exact not_undone_del hw₂ (by rw [← (Prod.mk.inj hret).2])
  · exact absurd (Prod.mk.inj hret).1 (by simp)

/-- A call that returns NULL leaves no trace if and only if `socket`, net_setnonblocking or
    `connect` itself has failed, so that it did not have to wait. -/
theorem noTrace_iff {waited : Option (Fd × ConnModule H)} (hreach : s.pull.Reachable)
    (hcall : s.Call errHandler coHandler ep sys waited none s') :
    s.NoTrace waited s' ↔
      sys.socket = none ∨ sys.nonblocking = false ∨ sys.connect = .error := by
  have hw : s.pull.Watches := PullModule.watches_run PullModule.watches_init hreach
  cases hcall with
  | now hsys hget =>
      obtain ⟨hfail, hsame⟩ := connGetByEndpoint_null hw hsys hget
      exact iff_of_true hsame hfail
  | later hsys hget hrun hret =>
      refine iff_of_false (not_undone_later hw hget hrun hret) ?_
      obtain ⟨hsocket, hnon, hconnect, -⟩ := connGetByEndpoint_waiting hget
      rw [hsocket, hnon, hconnect]
      simp

-- ============================================================================
-- Two calls
-- ============================================================================

/-- A proxy that listens on descriptor 5. -/
def listening : ConnModule ConnIx where
  pull := ((PullModule.init.sysOpen 5).netPullAdd 5 none true).netPullSetHandler 5 true false
    (some 0)
  freePool := fun _ => []
  conns := fun _ =>
    { fd := 5, stat := .closed, io := ioBufInit, ep := ⟨.inet, 0, []⟩, cnt := 0, shut := false }
  nconn := 0

theorem listening_reachable : listening.pull.Reachable := by
  refine .step (a := .setHandler 5 true false (some 0)) (.step (a := .add 5 none true)
    (.step (a := .sysOpen 5) .start trivial rfl) trivial rfl) trivial rfl

/-- A connection to port 80 of 1.2.3.4, on descriptor 6. -/
def toServer : Endpoint := ⟨.inet, 20480, [1, 2, 3, 4]⟩

def connectSix (ret : ConnectRet) : ConnectSys where
  socket := some 6
  nonblocking := true
  connect := ret
  epollCtl := true

theorem listening_possible (ret : ConnectRet) : listening.Possible (connectSix ret) := by
  intro fd hfd
  obtain rfl : 6 = fd := Option.some.inj hfd
  rfl

/-- `connect` fails at once. -/
theorem noTrace_six : NoTrace listening none
    (listening.connGetByEndpoint id 1 toServer (connectSix .error)).2 := by
  have hcall : listening.Call id 1 toServer (connectSix .error) none none
      (listening.connGetByEndpoint id 1 toServer (connectSix .error)).2 :=
    .now (listening_possible .error) rfl
  exact (noTrace_iff listening_reachable hcall).mpr (.inr (.inr rfl))

/-- The connection is refused: the error event resumes the coroutine with -1, and
    descriptor 6 stays open. -/
theorem trace_six :
    ∃ (waited : Option (Fd × ConnModule ConnIx)) (s' : ConnModule ConnIx),
      listening.Call id 1 toServer (connectSix .inProgress) waited none s' ∧
        ¬ listening.NoTrace waited s' := by
  have hw : listening.pull.Watches :=
    PullModule.watches_run PullModule.watches_init listening_reachable
  obtain ⟨s₁, hget⟩ : ∃ s₁, listening.connGetByEndpoint id 1 toServer (connectSix .inProgress) =
      (.waiting 6 0, s₁) := ⟨_, rfl⟩
  have hrun : ∃ m, Run PullModule.step (fun _ _ => True) s₁.pull m := by
    rw [(connGetByEndpoint_waiting hget).2.2.2]
    -- the event is taken, both handlers are called, and the second one resumes the coroutine
    exact ⟨_, .step (a := .next) (.step (a := .next) (.step (a := .next) (.step (a := .next)
      (.step (a := .wait [(6, true)]) .start trivial rfl) trivial rfl) trivial rfl) trivial rfl)
      trivial rfl⟩
  obtain ⟨m, hrun⟩ := hrun
  obtain ⟨s', hret⟩ : ∃ s', connConnected { s₁ with pull := m } 6 0 (-1) = (none, s') := ⟨_, rfl⟩
  have hrun' : Run PullModule.step (fun _ _ => True) s₁.pull
      (ConnModule.pull { s₁ with pull := m }) := hrun
  exact ⟨_, _, .later (listening_possible .inProgress) hget hrun' hret,
    not_undone_later hw hget hrun' hret⟩

end ConnModule

end HttpProxy
