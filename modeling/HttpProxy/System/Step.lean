/-
  HttpProxy.System.Step

  The proxy as a transition system.  `step w ch` is one step from `w`: of the
  coroutine that is running, or of the main loop when none is.  `ch` is what the
  environment decides in that step: the answer of a system call, the result of a
  DNS lookup, the batch `epoll_wait` returns.  A step that decides nothing
  accepts every choice.

  Each state a coroutine or the main loop can be in is a case of `reqStep`,
  `rspStep` or `mainStep`; the code between two such states is straight-line and
  runs without interruption, since a coroutine only gives up control where it
  waits.
-/

import HttpProxy.System.Ops

namespace HttpProxy

open Lib

/-! ## What the environment decides -/

/-- The outcome of `socket`, `fcntl` and `connect` in `conn_get_by_endpoint`;
    `ok` is whether `net_pull_add` succeeds. -/
inductive ConnectRes where
  /-- no descriptor, or one that is closed again at once -/
  | fail
  | connected (fd : Fd) (ok : Bool)
  | inProgress (fd : Fd) (ok : Bool)

/-- The outcome of `accept`. -/
inductive AcceptRes where
  /-- EAGAIN or an error, or a connection that is closed again at once -/
  | stop
  | conn (fd : Fd) (ep : Endpoint) (ok : Bool)

inductive Choice where
  | tau
  /-- what the entries of a `net_data` that is about to be filled find in their memory -/
  | heap (mem : Nat → Bytes)
  | sys (res : SysRes)
  /-- whether `getaddrinfo_a` takes the lookup -/
  | lookup (ok : Bool)
  /-- `req.ar_result` of a finished lookup -/
  | addrs (res : Option (List AddrInfo))
  | connect (res : ConnectRes)
  | accept (res : AcceptRes)
  | epoll (evs : List EpollEvent)
  /-- a lookup completes and raises SIGUSR1 -/
  | dnsDone (eid : EventId)
  /-- `epoll_wait` fails, or a signal ends the process -/
  | exit

/-- What the memory of new entries holds; zeros, where the step does not say. -/
def Choice.mem : Choice → Nat → Bytes
  | .heap mem => mem
  | _ => zeroHeap

/-! ## I/O of a coroutine -/

/-- The `struct conn` a role names, when the server at hand is `srv`. -/
def Role.ix (srv : ConnIx) : Role → ConnIx
  | .client => 0
  | .server => srv

/-- The connection an operation reads or writes, if it does. -/
def IoOp.role? : IoOp → Option Role
  | .mainStat => none
  | .stat r => some r
  | .getBuf r => some r
  | .setBuf r _ => some r
  | .sys r _ => some r
  | .yield r _ => some r
  | .close r => some r
  | .mark _ => none
  | .log _ => none
  | .ub => none

/-- The answers the kernel can give: a closed descriptor only gets an error. -/
def sysOk (net : Net) (fd : Fd) : SysReq → SysRes → Bool
  | _, .err => true
  | .recv len, .ok bs => (net.fds fd).isSome && !bs.isEmpty && decide (bs.length ≤ len)
  | .send data, .ok bs => (net.fds fd).isSome && !bs.isEmpty && bs.isPrefixOf data
  | _, .zero => (net.fds fd).isSome
  | _, .again => (net.fds fd).isSome

def SysReq.kind : SysReq → ActKind
  | .recv _ => .recv
  | .send _ => .send

/-- A request before it is parsed. -/
def netReqInit (data : NetData) : NetReq :=
  { data, port := 0, verMajor := 0, verMinor := 0, host := 0, protocol := 0, path := 0 }

/-- The read buffer and counters `conn_init` sets. -/
def ioBufInit : IoBuf := { buf := [], bufS := 0, rx := 0, tx := 0 }

/-- `htons` -/
def htons (x : Int) : UInt16 :=
  let n := (x % 65536).toNat
  UInt16.ofNat (n % 256 * 256 + n / 256)

namespace Local

/-- A `recv` or `send` through connection `i` that was answered with `res`. -/
def sysIo (l : Local) (side : Side) (r : Role) (i : ConnIx) (q : SysReq) (res : SysRes) :
    Local :=
  let l := { l with sh.net := l.sh.net.act l.c i q.kind (l.cl.mem.conns i).fd }
  match q, res with
  | .send _, .ok bs => { l with cl.hist := l.cl.logSend side r bs }
  | _, _ => l

/-- Perform one operation and go on with its answer.  A coroutine that yields stays
    at the operation; resuming it supplies the answer. -/
def ioOp {α : Type} (l : Local) (side : Side) (srv : ConnIx) (ch : Choice) :
    (o : IoOp) → (o.Res → Io α) → Option (Local × Io α)
  | .mainStat, k => some (l, k l.sh.mainStat)
  | .stat r, k => some (l, k (l.cl.mem.conns (r.ix srv)).stat)
  | .getBuf r, k => some (l, k (l.cl.mem.conns (r.ix srv)).io)
  | .setBuf r b, k =>
      some ({ l with cl.mem := l.cl.mem.setConn (r.ix srv) fun c => { c with io := b } }, k ())
  | .sys r q, k =>
      match ch with
      | .sys res =>
          if sysOk l.sh.net (l.cl.mem.conns (r.ix srv)).fd q res then
            some (l.sysIo side r (r.ix srv) q res, k res)
          else none
      | _ => none
  | .yield r d, k =>
      some (l.park side (.io (l.cl.mem.conns (r.ix srv)).fd d), .call (.yield r d) k)
  | .close r, k => some (l.connClose (r.ix srv), k ())
  | .mark a, k => some ({ l with cl.hist := l.cl.logMark side a }, k ())
  | .log size, k =>
      some ({ l with cl.hist.logged := l.cl.hist.logged ++ [(l.cl.rspNo, size)] }, k ())
  | .ub, k => some (l.raise .badLength, .call .ub k)

/-- The operation works on a connection that has been freed. -/
def usesFreed (l : Local) (srv : ConnIx) (o : IoOp) : Bool :=
  match o.role? with
  | none => false
  | some r => (l.cl.mem.conns (r.ix srv)).cnt = 0

/-- One step of a program run by the coroutine on `side`. -/
def ioStep {α : Type} (l : Local) (side : Side) (srv : ConnIx) (ch : Choice) :
    Io α → Option (Local × Io α)
  | .ret _ => none
  | .iter body s k => some (l, (Prog.iter body s k).unroll)
  | .call o k =>
      if l.usesFreed srv o then some (l.raise .useAfterFree, .call o k)
      else l.ioOp side srv ch o k

-- ============================================================================
-- The request coroutine
-- ============================================================================

def setReqPc (l : Local) (pc : ReqPc) : Local := { l with cl.req := pc }

def setRspPc (l : Local) (pc : RspPc) : Local := { l with cl.rsp := pc }

/-- Set `req_blocked` before a wait, and clear it after. -/
def setReqBlocked (l : Local) (b : Bool) : Local := { l with cl.cxt.reqBlocked := b }

def setRspBlocked (l : Local) (b : Bool) : Local := { l with cl.cxt.rspBlocked := b }

/-- `client->stat == CONN_CLOSED || main_stat == EXITING` -/
def stopping (l : Local) : Bool :=
  (l.cl.mem.conns 0).stat = .closed || l.sh.mainStat = .exiting

/-- The C string at `buf->p + off` of a request. -/
def reqStr (l : Local) (j : ReqIx) (off : Nat) : Bytes := (l.cl.mem.reqs j).req.data.buf.str off

/-- `mem_alloc_auto` of a `struct net_req` for the parsed request. -/
def newReq (l : Local) (req : NetReq) (kind : HandlerKind) : Local :=
  { l with cl.mem := { l.cl.mem with
      reqs := Function.update l.cl.mem.reqs l.cl.mem.nreq { cnt := 1, req, kind }
      nreq := l.cl.mem.nreq + 1 } }

/-- `net_req_handler` after `net_fetch_http`: look up the handler, parse, and call
    the request handler. -/
def reqFetched (l : Local) (ret : Int) (data : NetData) : Local :=
  let bad (l : Local) (j : Option ReqIx) := l.setReqPc (.io (.badRequest j) (netBadRequest .client))
  if ret ≠ 0 then bad l none
  else
    match netGetHandler (data.buf.str 0) with
    | none => bad l none
    | some kind =>
        let (req, ret) := netParseReq (netReqInit data)
        let j := l.cl.mem.nreq
        -- net_connect_req_handler starts with `req->host = req->path`
        let req' := if kind = .connect ∧ ret = 0 then { req with host := req.path } else req
        let l := l.newReq req' kind
        if ret ≠ 0 then bad l (some j) else l.setReqPc (.resolve j)

/-- The request handler returns after an error answer: `mem_decref(req, ..)`,
    `goto req_done`. -/
def reqFailed (l : Local) (j : ReqIx) (server : Option ConnIx) : Local :=
  let l := (server.map l.decrefConn).getD l
  (l.decrefReq j).setReqPc .done

/-- `net_connect_to_server` returns NULL: 502 and `return -1`. -/
def noServer (l : Local) (j : ReqIx) : Local :=
  l.setReqPc (.io (.badGateway j none) (netBadGateway .client))

/-- Append a node for request `j` on server `s` to the list. -/
def appendEntry (l : Local) (j : ReqIx) (s : ConnIx) : Local :=
  let e : Entry := { server := s, req := j, no := l.cl.hist.seq }
  let l := (l.increfConn s).increfReq j
  { l with
    cl.cxt.list := l.cl.cxt.list.push e
    cl.hist.appended := l.cl.hist.appended ++ [e] }

/-- `net_connect_to_server` returns `s`.  An HTTP request is forwarded, with a Host
    field if it had none; a CONNECT request is appended and answered. -/
def gotServer (l : Local) (j : ReqIx) (s : ConnIx) : Local :=
  match (l.cl.mem.reqs j).kind with
  | .http =>
      let req := (l.cl.mem.reqs j).req
      let data :=
        if netDataGetEnt req.data (bytesOf "Host") = none then
          netDataSetEntOffset req.data (bytesOf "Host") req.host
        else req.data
      let req := { req with data }
      let l := { l with
        cl.mem := l.cl.mem.setReq j fun r => { r with req }
        cl.hist.fwdSent := 0 }
      let head := (reqHeader req).content
      l.setReqPc (.io (.forward j s head) (connWrite .server head))
  | .connect =>
      let l := l.appendEntry j s
      let l := { l with sh.ev := l.sh.ev.eventPost l.cl.cxt.evRsp true }
      l.setReqPc (.io (.ok200 j s) (do Io.mark .ok200; connWrite .client msg200))

/-- `net_http_req_handler` after `net_forward_req_header`. -/
def reqForwarded (l : Local) (j : ReqIx) (s : ConnIx) (ret : Int) : Local :=
  if ret = 0 then
    let l := l.appendEntry j s
    let l :=
      if l.cl.cxt.rspBlocked then { l with sh.ev := l.sh.ev.eventPost l.cl.cxt.evRsp true } else l
    l.setReqPc (.io (.body j s) (netTransferBody .server .client (l.cl.mem.reqs j).req.data))
  else (l.decrefConn s).setReqPc (.resolve j)

/-- An I/O call of the request coroutine returns. -/
def reqRet (l : Local) : {α : Type} → ReqK α → α → Local
  | _, .fetch, (ret, data) => l.reqFetched ret data
  | _, .badRequest none, _ => l.setReqPc .done
  | _, .badRequest (some j), _ => (l.decrefReq j).setReqPc .done
  | _, .badGateway j server, _ => l.reqFailed j server
  | _, .forward j s _, ret => l.reqForwarded j s ret
  | _, .body j s, ret =>
      if ret ≠ 0 then l.setReqPc (.io (.badGateway j (some s)) (netBadGateway .client))
      else ((l.decrefConn s).decrefReq j).setReqPc .loop
  | _, .ok200 j s, ret =>
      if ret ≠ 0 then l.setReqPc (.io (.badGateway j (some s)) (netBadGateway .client))
      else l.setReqPc (.io (.tunnel j s) (netTunnel .server .client))
  | _, .tunnel j s, _ => l.reqFailed j (some s)

/-- `conn_init` of connection `i`, whose descriptor is known since `socket`. -/
def connInit (l : Local) (i : ConnIx) : Local :=
  { l with cl.mem := l.cl.mem.setConn i fun k => { k with stat := .free, io := ioBufInit } }

/-- `conn_get_by_endpoint` up to the wait: allocate the `struct conn` and register
    its descriptor.  The free pool it asks first is always empty: nothing calls
    `conn_free`. -/
def newConn (l : Local) (fd : Fd) (ep : Endpoint) (ok : Bool) : Local :=
  let i := l.cl.mem.nconn
  let k : Conn := { fd, stat := .closed, io := ioBufInit, ep, cnt := 1, shut := false }
  { l with
    cl.mem := { l.cl.mem with conns := Function.update l.cl.mem.conns i k, nconn := i + 1 }
    sh.net := (l.sh.net.sysOpen fd (.conn l.c i)).netPullAdd ok fd (some (l.c, i)) }

/-- `net_connect_to_server` after `conn_get_by_endpoint` returned connection `i`. -/
def gotNewConn (l : Local) (j : ReqIx) (i : ConnIx) : Local :=
  let l := l.connInit i
  let l := if (l.cl.mem.conns i).stat = .closed then l.decrefConn i else l
  -- Add connection to cxt pool
  let l := { l with cl.cxt := l.cl.cxt.poolAdd (l.cl.mem.conns i).ep i }
  (l.increfConn i).gotServer j i

/-- The head of the loop of `net_connect_to_server`. -/
def tryAddr (l : Local) (j : ReqIx) : List AddrInfo → Local
  | [] => l.noServer j
  | rp :: rps =>
      if l.sh.mainStat = .exiting then l.noServer j
      else if rp.family = .other then l.setReqPc (.addrs j rps)
      else
        let ep : Endpoint := ⟨rp.family, htons (l.cl.mem.reqs j).req.port, rp.addr⟩
        -- Try local connection pool first
        match l.cl.cxt.poolFind ep with
        | none => l.setReqPc (.getConn j ep rps)
        | some s =>
            if (l.cl.mem.conns s).stat = .closed then
              let l := { l with cl.cxt := l.cl.cxt.poolDel ep }
              (l.decrefConn s).setReqPc (.getConn j ep rps)
            else (l.increfConn s).gotServer j s

/-- `conn_get_by_endpoint` up to its wait, or to its return if it does not wait. -/
def getConn (l : Local) (j : ReqIx) (ep : Endpoint) (rps : List AddrInfo) :
    ConnectRes → Option Local
  | .fail => some (l.setReqPc (.addrs j rps))
  | .connected fd ok =>
      if (l.sh.net.fds fd).isSome then none
      else some ((l.newConn fd ep ok).gotNewConn j l.cl.mem.nconn)
  | .inProgress fd ok =>
      if (l.sh.net.fds fd).isSome then none
      else
        let i := l.cl.mem.nconn
        if ok then
          some (((l.newConn fd ep ok).setReqPc (.connect j i rps)).park .req (.io fd .read))
        -- `errno` is now that of epoll_ctl: it does not wait
        else some ((l.newConn fd ep ok).gotNewConn j i)

/-- `conn_get_by_endpoint` after its wait.  A failed connect deregisters the
    descriptor and leaves it open. -/
def connConnected (l : Local) (j : ReqIx) (i : ConnIx) (rps : List AddrInfo) (ret : Int) : Local :=
  if ret = -1 then
    ((l.connDel i).decrefConnNull i).setReqPc (.addrs j rps)
  else l.gotNewConn j i

/-- `net_dns_lookup_a` up to its wait, or to its return if it does not wait.  Where
    `getaddrinfo_a` refuses the lookup, the `int` of `gai_error` is logged with `%s`. -/
def dnsLookup (l : Local) (j : ReqIx) (ch : Choice) : Option Local :=
  let host := l.reqStr j (l.cl.mem.reqs j).req.host
  match l.sh.dns.cache.find? (·.1 = host) with
  | some h => some (l.setReqPc (.addrs j h.2))
  | none =>
      match ch with
      | .lookup ok =>
          let eid := l.sh.ev.idMax
          let l := { l with sh.ev := l.sh.ev.eventGetId }
          if ok then
            let l := { l with sh.dns.flight := l.sh.dns.flight ++ [eid] }
            some ((l.setReqPc (.dns j eid)).park .req (.event eid))
          else some (l.raise .badFormat)
      | _ => none

/-- `net_dns_lookup_a` after its wait. -/
def dnsResolved (l : Local) (j : ReqIx) (eid : EventId) (res : Option (List AddrInfo)) : Local :=
  let host := l.reqStr j (l.cl.mem.reqs j).req.host
  let l := { l with sh.ev := l.sh.ev.eventFreeId eid }
  match res with
  | none => l.setReqPc (.addrs j [])
  | some rps =>
      let cache := (host.take DOMAIN_MAXLEN, rps) :: l.sh.dns.cache
      { l with sh.dns.cache := cache }.setReqPc (.addrs j rps)

/-- `net_req_handler` at `req_done`, up to its last wait. -/
def reqDone (l : Local) : Local :=
  let l := { l with cl.cxt.reqWillExit := true }
  if l.cl.cxt.rspWillExited then l.setReqPc .cleanup
  else
    let l := { l with sh.ev := l.sh.ev.eventPost l.cl.cxt.evRsp false }
    ((l.setReqBlocked true).setReqPc .final).park .req (.event l.cl.cxt.evReq)

/-- Close and drop what the pool holds. -/
def dropPool (l : Local) : List (Endpoint × ConnIx) → Local
  | [] => l
  | t :: ts => (((l.connClose t.2).decrefConn t.2).dropPool ts)

/-- Drop what the list holds. -/
def dropList (l : Local) : List (Nat × Entry) → Local
  | [] => l
  | e :: es => (((l.decrefConn e.2.server).decrefReq e.2.req).dropList es)

/-- `net_req_handler` after its last wait: tear the context down and return. -/
def reqCleanup (l : Local) : Local :=
  let l := l.dropPool l.cl.cxt.pool
  let l := { l with cl.cxt.pool := [] }
  let l := l.dropList l.cl.cxt.list.cells
  let l := { l with
    cl.cxt.list := .empty
    cl.hist.npop := l.cl.hist.appended.length }
  let l := { l with sh.ev := l.sh.ev.eventFreeId l.cl.cxt.evReq }
  ((l.decrefConn 0).setReqPc .finished).leave

end Local

/-- The server an I/O call of the request coroutine works on (0 if it has none). -/
def ReqK.srv : {α : Type} → ReqK α → ConnIx
  | _, .fetch => 0
  | _, .badRequest _ => 0
  | _, .badGateway _ server => server.getD 0
  | _, .forward _ s _ => s
  | _, .body _ s => s
  | _, .ok200 _ s => s
  | _, .tunnel _ s => s

/-- One step of the running request coroutine. -/
def reqStep (l : Local) (ch : Choice) : Option Local :=
  match l.cl.req with
  | .loop =>
      if l.stopping then some (l.setReqPc .done)
      else
        let l := { l with cl.hist.seq := l.cl.hist.seq + 1 }
        some (l.setReqPc (.io .fetch (netFetchHttp .client (netDataInit ch.mem))))
  | .io k (.ret a) => some (l.reqRet k a)
  | .io k p => (l.ioStep .req k.srv ch p).map fun r => r.1.setReqPc (.io k r.2)
  | .resolve j => l.dnsLookup j ch
  | .resolved j eid =>
      match ch with
      | .addrs res => some (l.dnsResolved j eid res)
      | _ => none
  | .addrs j rps => some (l.tryAddr j rps)
  | .getConn j ep rps =>
      match ch with
      | .connect res => l.getConn j ep rps res
      | _ => none
  | .connected j i rps ret => some (l.connConnected j i rps ret)
  | .done => some l.reqDone
  | .cleanup => some l.reqCleanup
  | .start => none
  | .dns _ _ => none
  | .connect _ _ _ => none
  | .final => none
  | .finished => none

-- ============================================================================
-- The response coroutine
-- ============================================================================

namespace Local

/-- Pop the served node `h` and go on. -/
def rspPop (l : Local) (h : Nat) (e : Entry) : Local :=
  let l := (l.decrefConn e.server).decrefReq e.req
  let l := { l with
    cl.cxt.list := l.cl.cxt.list.pop h
    cl.hist.npop := l.cl.hist.npop + 1
    cl.hist.call := 0 }
  l.setRspPc .loop

/-- `net_rsp_handler` after `h0->rsp_handler`. -/
def rspServed (l : Local) (h : Nat) (e : Entry) (ret : Int) : Local :=
  let k := l.cl.mem.conns e.server
  if k.cnt = 0 then l.raise .useAfterFree
  else if k.stat = .closed then
    -- Delete server connection from the pool
    match l.cl.cxt.poolFind k.ep with
    | none => l.raise .nullDeref
    | some _ =>
        let l := { l with cl.cxt := l.cl.cxt.poolDel k.ep }
        (l.decrefConn e.server).rspPop h e
  else if ret = 100 then
    -- HTTP 100 CONTINUE
    { l with cl.hist.call := l.cl.hist.call + 1 }.setRspPc .loop
  else l.rspPop h e

/-- The head of the loop of `net_rsp_handler`. -/
def rspLoop (l : Local) (mem : Nat → Bytes) : Local :=
  if l.stopping then l.setRspPc .exit
  else
    match l.cl.cxt.list.head with
    | none => ((l.setRspBlocked true).setRspPc .empty).park .rsp (.event l.cl.cxt.evRsp)
    | some h =>
        match l.cl.cxt.list.nodes h with
        | none => l.raise .useAfterFree
        | some n =>
            if (l.cl.mem.reqs n.val.req).cnt = 0 then l.raise .useAfterFree
            else
              match netGetHandler (l.reqStr n.val.req 0) with
              | none => l.raise .nullDeref
              | some kind => l.setRspPc (.serve h n.val (rspHandler mem kind))

/-- `net_rsp_handler` after its loop.  It sets `req_will_exit`. -/
def rspExit (l : Local) : Local :=
  let l := { l with cl.cxt.reqWillExit := true }
  let l :=
    if l.cl.cxt.reqBlocked then { l with sh.ev := l.sh.ev.eventPost l.cl.cxt.evReq false } else l
  let l := { l with sh.ev := l.sh.ev.eventFreeId l.cl.cxt.evRsp }
  ((l.decrefConn 0).setRspPc .finished).leave

/-- The context the response coroutine follows lives on the stack of the request
    coroutine. -/
def cxtDead (l : Local) : Bool :=
  match l.cl.req with
  | .finished => true
  | _ => false

end Local

/-- One step of the running response coroutine. -/
def rspStep (l : Local) (ch : Choice) : Option Local :=
  if l.cxtDead then some (l.raise .useAfterFree)
  else
    match l.cl.rsp with
    | .loop => some (l.rspLoop ch.mem)
    | .serve h e (.ret ret) => some (l.rspServed h e ret)
    | .serve h e p => (l.ioStep .rsp e.server ch p).map fun r => r.1.setRspPc (.serve h e r.2)
    | .exit => some l.rspExit
    | .start => none
    | .empty => none
    | .finished => none

/-- One step of the coroutine of `l` on one side. -/
def coStep (side : Side) (l : Local) (ch : Choice) : Option Local :=
  match side with
  | .req => reqStep l ch
  | .rsp => rspStep l ch

-- ============================================================================
-- Resuming a coroutine
-- ============================================================================

/-- A program at a wait goes on with the value the wait returns. -/
def ioResume {α : Type} (ret : Int) : Io α → Io α
  | .call (.yield _ _) k => k ret
  | p => p

/-- `async_yield` returns `ret` in the request coroutine. -/
def Client.resumeReq (cl : Client) (ret : Int) : Client :=
  let cl := { cl with reqWait := none }
  match cl.req with
  | .start => { cl with cxt.reqBlocked := false, req := .loop }
  | .io k p => { cl with req := .io k (ioResume ret p) }
  | .dns j eid => { cl with req := .resolved j eid }
  | .connect j i rps => { cl with req := .connected j i rps ret }
  | .final => { cl with cxt.reqBlocked := false, req := .cleanup }
  | _ => cl

/-- `async_yield` returns `ret` in the response coroutine; a non-zero result ends
    its wait for work and the coroutine. -/
def Client.resumeRsp (cl : Client) (ret : Int) : Client :=
  let cl := { cl with rspWait := none }
  match cl.rsp with
  | .start => { cl with cxt.rspBlocked := false, rsp := .loop }
  | .empty => { cl with cxt.rspBlocked := false, rsp := if ret = 0 then .loop else .exit }
  | .serve h e p => { cl with rsp := .serve h e (ioResume ret p) }
  | _ => cl

/-- The coroutine has returned, and its `async_cxt` is freed. -/
def Client.isFinished (cl : Client) : Side → Bool
  | .req => match cl.req with
      | .finished => true
      | _ => false
  | .rsp => match cl.rsp with
      | .finished => true
      | _ => false

def Client.resume (cl : Client) (side : Side) (ret : Int) : Client :=
  match side with
  | .req => cl.resumeReq ret
  | .rsp => cl.resumeRsp ret

namespace World

def setClient (w : World) (c : ClientId) (cl : Client) : World :=
  { w with clients := Function.update w.clients c (some cl) }

def setMain (w : World) (m : Main) : World := { w with sh.main := m }

/-- `async_resume`; the main loop goes on at `m` when the coroutine gives up
    control. -/
def asyncResume (w : World) (x : Co) (ret : Int) (m : Main) : World :=
  match w.clients x.client with
  | none => { w with sh := w.sh.raise .useAfterFree }
  | some cl =>
      if cl.isFinished x.side then { w with sh := w.sh.raise .useAfterFree }
      else
        { w.setClient x.client (cl.resume x.side ret) with
          sh := { w.sh with main := m, callCxt := some x } }

/-- `conn_err_handler` -/
def connErr (w : World) (t : ClientId × ConnIx) : World :=
  match w.clients t.1 with
  | none => { w with sh := w.sh.raise .useAfterFree }
  | some cl =>
      if (cl.mem.conns t.2).cnt = 0 then { w with sh := w.sh.raise .useAfterFree }
      else w.setClient t.1 { cl with mem := cl.mem.setConn t.2 fun k => { k with stat := .closed } }

-- ============================================================================
-- The main loop
-- ============================================================================

/-- Both coroutines of a new client up to their first waits, as
    `conn_accept_handler` starts them; `conn` is the accepted connection. -/
def newClient (sh : Shared) (conn : Conn) : Client where
  mem :=
    { conns := fun i => if i = 0 then conn else { conn with cnt := 0 }
      nconn := 1
      reqs := fun _ => { cnt := 0, req := netReqInit (netDataInit zeroHeap), kind := .http }
      nreq := 0 }
  cxt :=
    { pool := []
      list := .empty
      evReq := sh.ev.idMax
      evRsp := sh.ev.idMax + 1
      reqBlocked := true
      rspBlocked := true
      reqWillExit := false
      rspWillExited := false }
  req := .start
  reqWait := some (.event sh.ev.idMax)
  rsp := .start
  rspWait := some (.event (sh.ev.idMax + 1))
  hist :=
    { seq := 0
      call := 0
      reqAns := .bad400
      rspAns := .bad502
      out := []
      appended := []
      npop := 0
      fwdSent := 0
      heads := []
      logged := [] }

/-- `conn_accept_handler` for one accepted connection: register it, run both
    coroutines up to their first waits. -/
def acceptConn (w : World) (fd : Fd) (ep : Endpoint) (ok : Bool) : World :=
  let c := w.nclients
  -- one reference for each coroutine: the handler drops its own
  let conn : Conn := { fd, stat := .used, io := ioBufInit, ep, cnt := 2, shut := false }
  let cl := newClient w.sh conn
  let ev := w.sh.ev.eventGetId.eventGetId
  let ev := (ev.eventPost cl.cxt.evReq true).eventSetHandler cl.cxt.evReq ⟨c, .req⟩
  let ev := (ev.eventPost cl.cxt.evRsp true).eventSetHandler cl.cxt.evRsp ⟨c, .rsp⟩
  let net := (w.sh.net.sysOpen fd (.conn c 0)).netPullAdd ok fd (some (c, 0))
  { clients := Function.update w.clients c (some cl), nclients := c + 1,
    sh := { w.sh with ev, net } }

/-- Where a dispatch loop goes next. -/
def nextTodo (w : World) : Todo → World
  | .batch [] => w.setMain .eventWork
  | .batch (ev :: evs) =>
      match w.sh.net.pullFind ev.fd with
      | none => w.setMain (.next (.batch evs))
      | some nh =>
          -- both handlers are taken out of the table before any is called
          let net := w.sh.net.netPullSetHandler ev.fd .read none
          let w := { w with sh.net := net.netPullSetHandler ev.fd .write none }
          let w := if ev.err then (nh.err.map w.connErr).getD w else w
          w.setMain (.callRead ev nh (.batch evs))
  -- event_module_done runs the queue after conn_module_done
  | .done [] => w.setMain .eventWork
  | .done (nh :: ents) =>
      let w := (nh.err.map w.connErr).getD w
      w.setMain (.callRead { fd := nh.fd, err := true } nh (.done ents))

/-- Call a `net_pull_handler_t`; the dispatch loop goes on at `k`. -/
def callHandler (w : World) (h : Handler) (ev : EpollEvent) (k : Main) : World :=
  match h with
  | .co x => w.asyncResume x (if ev.err then -1 else 0) k
  | .accept sfd =>
      if ev.err then { w with sh.net := w.sh.net.netPullDel sfd }.setMain k
      else
        -- Keep this accept handler
        { w with sh.net := w.sh.net.netPullSetHandler sfd .read (some (.accept sfd)) }.setMain
          (.accept sfd k)
  | .dns =>
      { w with sh.net := w.sh.net.netPullSetHandler ev.fd .read (some .dns) }.setMain (.dnsRead k)

/-- `proxy_done` up to the loop of `net_pull_done`: every registered descriptor is
    closed and the table is copied and cleared. -/
def proxyDone (w : World) : World :=
  let ents := w.sh.net.table
  let net := ents.foldl (fun net e => net.sysClose e.fd) w.sh.net
  { w with sh := { w.sh with
    mainStat := .exiting
    net := { net with table := [] }
    main := .next (.done ents) } }

/-- `event_work`, one iteration up to the handler's return. -/
def eventWork (w : World) : World :=
  match w.sh.ev.queue with
  | [] =>
      match w.sh.mainStat with
      | .running => w.setMain .epollWait
      | .exiting => { w with sh.ev.handlers := fun _ => none }.setMain .exited
  | (eid, d) :: _ =>
      match w.sh.ev.handlers eid with
      | none => w.setMain .eventRet
      | some x => w.asyncResume x (if d then 0 else 1) .eventRet

/-- `net_pull_work` at `epoll_wait`.  It is assumed that SIGINT, SIGTERM and SIGHUP arrive
    here only: `sig_handler` runs `proxy_done` wherever the process is and never returns. -/
def epollWait (w : World) : Choice → Option World
  | .epoll evs =>
      if w.sh.net.fdCnt = 0 then some w.proxyDone
      else if evs.all (fun ev => w.sh.net.epoll ev.fd) then some (w.setMain (.next (.batch evs)))
      else none
  | .exit => some w.proxyDone
  | _ => none

/-- A lookup completes, at any moment, and raises SIGUSR1: a standard signal, so an
    instance that is already pending absorbs the new one. -/
def dnsDone (w : World) (eid : EventId) : Option World :=
  if eid ∈ w.sh.dns.flight then
    some { w with
      sh.dns.flight := w.sh.dns.flight.erase eid
      sh.dns.sigPending := some (w.sh.dns.sigPending.getD eid) }
  else none

/-- `signal_fd` -/
def signalFd : Fd := 4

/-- One step of the main loop. -/
def mainStep (w : World) (ch : Choice) : Option World :=
  match w.sh.main with
  | .eventWork => some w.eventWork
  | .eventRet => some ({ w with sh.ev.queue := w.sh.ev.queue.tail }.setMain .eventWork)
  | .epollWait => w.epollWait ch
  | .next t => some (w.nextTodo t)
  | .callRead ev nh t =>
      match nh.rd with
      | none => some (w.setMain (.callWrite ev nh t))
      | some h => some (w.callHandler h ev (.callWrite ev nh t))
  | .callWrite ev nh t =>
      match nh.wr with
      | none => some (w.setMain (.next t))
      | some h => some (w.callHandler h ev (.next t))
  | .accept _ k =>
      match ch with
      | .accept .stop => some (w.setMain k)
      | .accept (.conn fd ep ok) =>
          if (w.sh.net.fds fd).isSome then none else some (w.acceptConn fd ep ok)
      | _ => none
  | .dnsRead k =>
      match w.sh.net.fds signalFd, w.sh.dns.sigPending with
      | some _, some eid =>
          some { w with
            sh.ev := w.sh.ev.eventPost eid false
            sh.dns.sigPending := none }
      -- the descriptor is closed, or nothing is pending
      | _, _ => some (w.setMain k)
  | .exited => none

/-- One step of the proxy. -/
def step (w : World) (ch : Choice) : Option World :=
  if w.sh.fault.isSome then none
  else
    match ch, w.sh.callCxt with
    | .dnsDone eid, _ => w.dnsDone eid
    | ch, none => w.mainStep ch
    | ch, some x =>
        match w.clients x.client with
        | none => none
        | some cl =>
            (coStep x.side { c := x.client, cl, sh := w.sh } ch).map fun l =>
              { w.setClient x.client l.cl with sh := l.sh }

/-- The proxy listening on descriptor 5, with the epoll descriptor 3 and
    `signalFd` open, about to enter its main loop. -/
def init : World where
  clients := fun _ => none
  nclients := 0
  sh :=
    { mainStat := .running
      main := .eventWork
      callCxt := none
      ev := { queue := [], handlers := fun _ => none, idMax := 0 }
      net :=
        { table := [{ fd := signalFd, rd := some .dns, wr := none, err := none },
            { fd := 5, rd := some (.accept 5), wr := none, err := none }]
          fdCnt := 2
          epoll := fun fd => fd = signalFd || fd = 5
          fds := fun fd =>
            if fd = signalFd then some .signal else if fd < 6 then some .listen else none
          acts := [] }
      dns := { cache := [], flight := [], sigPending := none }
      fault := none }

end World

end HttpProxy
