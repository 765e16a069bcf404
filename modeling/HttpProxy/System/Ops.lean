/-
  HttpProxy.System.Ops

  The operations the coroutines and the main loop are made of, under the names
  of the C functions: core/event.c, core/net_pull.c, the reference counts of
  core/mem.c, and the parts of core/conn.c and core/async.c that touch them.
  Each is a total function on the state; using a freed object or following NULL
  sets `fault`, after which the run has no further step.
-/

import HttpProxy.System.State

namespace HttpProxy

open Lib

-- ============================================================================
-- core/event.c
-- ============================================================================

namespace Events

/-- `event_post`; `d` is whether the data is not NULL. -/
def eventPost (ev : Events) (eid : EventId) (d : Bool) : Events :=
  { ev with queue := ev.queue ++ [(eid, d)] }

/-- `event_set_handler(eid, conn_event_handler, x)` -/
def eventSetHandler (ev : Events) (eid : EventId) (x : Co) : Events :=
  { ev with handlers := Function.update ev.handlers eid (some x) }

/-- `event_free_id` -/
def eventFreeId (ev : Events) (eid : EventId) : Events :=
  { ev with handlers := Function.update ev.handlers eid none }

/-- `event_get_id` hands out `idMax` and increments it. -/
def eventGetId (ev : Events) : Events := { ev with idMax := ev.idMax + 1 }

end Events

-- ============================================================================
-- core/net_pull.c and descriptors
-- ============================================================================

/-- `h->h_read = h` or `h->h_write = h` -/
def PullEnt.set (e : PullEnt) (d : Dir) (h : Option Handler) : PullEnt :=
  match d with
  | .read => { e with rd := h }
  | .write => { e with wr := h }

namespace Net

/-- `HASH_FIND_INT(handlers, &fd, h)` -/
def pullFind (net : Net) (fd : Fd) : Option PullEnt := net.table.find? (·.fd = fd)

/-- `net_pull_add`; `ok` is whether `epoll_ctl` succeeds. -/
def netPullAdd (net : Net) (ok : Bool) (fd : Fd) (err : Option (ClientId × ConnIx)) : Net :=
  if ok then
    { net with
      table := if (net.pullFind fd).isNone then
          net.table ++ [{ fd, rd := none, wr := none, err }] else net.table
      epoll := Function.update net.epoll fd true
      fdCnt := net.fdCnt + 1 }
  else net

/-- `net_pull_set_handler` for one direction; nothing happens without an entry. -/
def netPullSetHandler (net : Net) (fd : Fd) (d : Dir) (h : Option Handler) : Net :=
  { net with table := net.table.map fun e => if e.fd = fd then e.set d h else e }

/-- `net_pull_del`: `epoll_ctl` fails when the descriptor is not registered. -/
def netPullDel (net : Net) (fd : Fd) : Net :=
  if (net.pullFind fd).isSome && net.epoll fd then
    { net with
      table := net.table.filter (·.fd ≠ fd)
      epoll := Function.update net.epoll fd false
      fdCnt := net.fdCnt - 1 }
  else net

/-- `close(fd)`: the descriptor number is free again, and epoll forgets it. -/
def sysClose (net : Net) (fd : Fd) : Net :=
  { net with
    fds := Function.update net.fds fd none
    epoll := Function.update net.epoll fd false }

/-- `socket` or `accept` returns `fd`. -/
def sysOpen (net : Net) (fd : Fd) (o : FdOwner) : Net :=
  { net with fds := Function.update net.fds fd (some o) }

/-- Record a descriptor operation issued through a `struct conn`. -/
def act (net : Net) (c : ClientId) (i : ConnIx) (kind : ActKind) (fd : Fd) : Net :=
  { net with acts := net.acts ++ [{ client := c, conn := i, kind, fd, owner := net.fds fd }] }

end Net

/-- The first undefined behaviour ends the run. -/
def Shared.raise (sh : Shared) (f : Fault) : Shared :=
  { sh with fault := some (sh.fault.getD f) }

-- ============================================================================
-- One client
-- ============================================================================

/-- Overwrite a `struct conn`. -/
def Mem.setConn (m : Mem) (i : ConnIx) (f : Conn → Conn) : Mem :=
  { m with conns := Function.update m.conns i (f (m.conns i)) }

/-- Overwrite a `struct net_req`. -/
def Mem.setReq (m : Mem) (j : ReqIx) (f : Req → Req) : Mem :=
  { m with reqs := Function.update m.reqs j (f (m.reqs j)) }

namespace Cxt

/-- `HASH_FIND(hh, cxt->pool, ep, ..)` -/
def poolFind (cxt : Cxt) (ep : Endpoint) : Option ConnIx :=
  (cxt.pool.find? (·.1 = ep)).map (·.2)

/-- `HASH_DEL(cxt->pool, t)` for the entry found under `ep`. -/
def poolDel (cxt : Cxt) (ep : Endpoint) : Cxt :=
  { cxt with pool := cxt.pool.eraseP (·.1 = ep) }

/-- `HASH_ADD(hh, cxt->pool, ep, ..)` -/
def poolAdd (cxt : Cxt) (ep : Endpoint) (i : ConnIx) : Cxt :=
  { cxt with pool := cxt.pool ++ [(ep, i)] }

end Cxt

namespace Client

/-- Which request the bytes a response handler writes answer. -/
def rspNo (cl : Client) : Nat :=
  match cl.rsp with
  | .serve _ e _ => e.no
  | _ => 0

/-- The head the request coroutine is forwarding, and where to. -/
def forwarding (cl : Client) : Option (ReqIx × ConnIx × Bytes) :=
  match cl.req with
  | .io (.forward j s head) _ => some (j, s, head)
  | _ => none

/-- Count the bytes of the head being forwarded; the last one completes it. -/
def logForward (cl : Client) (bs : Bytes) : History :=
  let h := cl.hist
  match cl.forwarding with
  | none => h
  | some (j, s, head) =>
      { h with
        fwdSent := h.fwdSent + bs.length
        heads := if h.fwdSent + bs.length = head.length then h.heads ++ [(s, j)] else h.heads }

/-- Record the bytes a `send` of a coroutine accepted. -/
def logSend (cl : Client) : Side → Role → Bytes → History
  | .req, .client, bs =>
      { cl.hist with out := cl.hist.out ++ [⟨cl.hist.seq, .req cl.hist.reqAns, bs⟩] }
  | .rsp, .client, bs =>
      { cl.hist with out := cl.hist.out ++ [⟨cl.rspNo, .rsp cl.hist.call cl.hist.rspAns, bs⟩] }
  | .req, .server, bs => cl.logForward bs
  | .rsp, .server, _ => cl.hist

/-- Record which answer a coroutine begins. -/
def logMark (cl : Client) : Side → Ans → History
  | .req, a => { cl.hist with reqAns := a }
  | .rsp, a => { cl.hist with rspAns := a }

def setWait (cl : Client) : Side → Option Wait → Client
  | .req, x => { cl with reqWait := x }
  | .rsp, x => { cl with rspWait := x }

end Client

-- ============================================================================
-- One client with the shared state
-- ============================================================================

namespace Local

def raise (l : Local) (f : Fault) : Local := { l with sh := l.sh.raise f }

/-- The coroutine of this client on one side. -/
def co (l : Local) (side : Side) : Co := { client := l.c, side }

/-- `net_pull_del(conn->fd)` -/
def connDel (l : Local) (i : ConnIx) : Local :=
  let fd := (l.cl.mem.conns i).fd
  { l with sh.net := (l.sh.net.act l.c i .del fd).netPullDel fd }

/-- `net_pull_del(conn->fd); close(conn->fd);` -/
def closeFd (l : Local) (i : ConnIx) : Local :=
  let fd := (l.cl.mem.conns i).fd
  let l := l.connDel i
  { l with sh.net := (l.sh.net.act l.c i .close fd).sysClose fd }

/-- `conn_close` -/
def connClose (l : Local) (i : ConnIx) : Local :=
  if (l.cl.mem.conns i).stat = .closed then l
  else
    let l := l.closeFd i
    { l with cl.mem := l.cl.mem.setConn i fun k => { k with stat := .closed, shut := true } }

/-- `conn_done`: a closed connection has its descriptor closed here, whether
    `conn_close` or `conn_err_handler` closed it. -/
def connDone (l : Local) (i : ConnIx) : Local :=
  if (l.cl.mem.conns i).stat = .closed then l.closeFd i else l.connClose i

/-- `mem_incref` of a connection. -/
def increfConn (l : Local) (i : ConnIx) : Local :=
  if (l.cl.mem.conns i).cnt = 0 then l.raise .useAfterFree
  else { l with cl.mem := l.cl.mem.setConn i fun k => { k with cnt := k.cnt + 1 } }

/-- `mem_decref(conn, NULL)` -/
def decrefConnNull (l : Local) (i : ConnIx) : Local :=
  if (l.cl.mem.conns i).cnt = 0 then l.raise .useAfterFree
  else { l with cl.mem := l.cl.mem.setConn i fun k => { k with cnt := k.cnt - 1 } }

/-- `mem_decref(conn, conn_done)` -/
def decrefConn (l : Local) (i : ConnIx) : Local :=
  let l' := l.decrefConnNull i
  if (l.cl.mem.conns i).cnt = 1 then l'.connDone i else l'

/-- `mem_incref` of a request. -/
def increfReq (l : Local) (j : ReqIx) : Local :=
  if (l.cl.mem.reqs j).cnt = 0 then l.raise .useAfterFree
  else { l with cl.mem := l.cl.mem.setReq j fun r => { r with cnt := r.cnt + 1 } }

/-- `mem_decref(req, net_req_done)` -/
def decrefReq (l : Local) (j : ReqIx) : Local :=
  if (l.cl.mem.reqs j).cnt = 0 then l.raise .useAfterFree
  else { l with cl.mem := l.cl.mem.setReq j fun r => { r with cnt := r.cnt - 1 } }

/-- `async_yield` and the `conn_async_final` that follows it in the main context:
    the handler of the awaited source is set. -/
def park (l : Local) (side : Side) (x : Wait) : Local :=
  let l := { l with cl := l.cl.setWait side (some x), sh.callCxt := none }
  match x with
  | .io fd d => { l with sh.net := l.sh.net.netPullSetHandler fd d (some (.co (l.co side))) }
  | .event eid => { l with sh.ev := l.sh.ev.eventSetHandler eid (l.co side) }

/-- The coroutine function returns. -/
def leave (l : Local) : Local := { l with sh.callCxt := none }

end Local

end HttpProxy
