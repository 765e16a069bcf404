/-
  HttpProxy.System.State

  The state of the running proxy: what core/conn.c, core/event.c,
  core/net_pull.c, core/mem.c, core/async.c and core/net_handle.c keep in
  memory, and the part of the kernel they talk to.

  - `Shared` is the process-wide state: event queue and handlers, the epoll
    handler table, open descriptors, pending DNS lookups, and where the main
    loop is (`Main`).
  - `Client` is one accepted connection: its `net_handle_cxt`, the `struct
    conn`s and `net_req`s its two coroutines allocate, and where each coroutine
    is (`ReqPc`, `RspPc`).  Clients share nothing but `Shared`.

  A coroutine is a pair of its client and its side.  It runs until it waits; a
  waiting coroutine has `some` wait, which is what its `async_yield` was called
  with.  A heap object whose count is 0 has been freed.

  `History` and `Net.acts` record what happened.
-/

import HttpProxy.Core.NetHttp
import HttpProxy.Lib.LinkedQueue
import Mathlib.Logic.Function.Basic

namespace HttpProxy

open Lib

abbrev Fd := Nat
abbrev EventId := UInt32
abbrev ClientId := Nat

/-- Name of a `struct conn` of a client; 0 is the accepted connection. -/
abbrev ConnIx := Nat

/-- Name of a `struct net_req` of a client. -/
abbrev ReqIx := Nat

/-! ## Connections and requests -/

/-- `sa_family` of an address: AF_INET, AF_INET6 or one the proxy does not know. -/
inductive Family where
  | inet
  | inet6
  | other
deriving DecidableEq, Repr

/-- `struct conn_endpoint` -/
structure Endpoint where
  family : Family
  port : UInt16
  addr : Bytes
deriving DecidableEq, Repr

/-- One result of a DNS lookup. -/
structure AddrInfo where
  family : Family
  addr : Bytes
deriving DecidableEq, Repr

/-- `struct conn` with its reference count.  `shut` records that `conn_close` has
    closed the descriptor. -/
structure Conn where
  fd : Fd
  stat : ConnStat
  io : IoBuf
  ep : Endpoint
  cnt : Nat
  shut : Bool

/-- `struct net_req` with its reference count. -/
structure Req where
  cnt : Nat
  req : NetReq
  kind : HandlerKind

/-- The payload of a `struct net_handle_list` node; `no` records which request of
    the client it is for. -/
structure Entry where
  server : ConnIx
  req : ReqIx
  no : Nat
deriving DecidableEq, Repr

/-! ## Coroutines -/

/-- The two coroutines of a client. -/
inductive Side where
  | req
  | rsp
deriving DecidableEq, Repr

structure Co where
  client : ClientId
  side : Side
deriving DecidableEq, Repr

/-- What a suspended coroutine waits for: the `yield_type` and `yield_data` of its
    `async_cxt`. -/
inductive Wait where
  | io (fd : Fd) (d : Dir)
  | event (eid : EventId)
deriving DecidableEq, Repr

/-- The calls of the request coroutine that do I/O, with what the caller holds
    while they run: the request, and the server if it has one. -/
inductive ReqK : Type → Type where
  | fetch : ReqK (Int × NetData)
  | badRequest (req : Option ReqIx) : ReqK Unit
  | badGateway (req : ReqIx) (server : Option ConnIx) : ReqK Unit
  | forward (req : ReqIx) (server : ConnIx) (head : Bytes) : ReqK Int
  | body (req : ReqIx) (server : ConnIx) : ReqK Int
  | ok200 (req : ReqIx) (server : ConnIx) : ReqK Int
  | tunnel (req : ReqIx) (server : ConnIx) : ReqK Int

/-- Where the request coroutine is. -/
inductive ReqPc : Type 1 where
  /-- the wait before the loop -/
  | start
  /-- the head of the loop of `net_req_handler` -/
  | loop
  /-- inside an I/O call -/
  | io {α : Type} (k : ReqK α) (p : Io α)
  /-- at the call of `net_connect_to_server` -/
  | resolve (req : ReqIx)
  /-- the wait of `net_dns_lookup_a` -/
  | dns (req : ReqIx) (eid : EventId)
  | resolved (req : ReqIx) (eid : EventId)
  /-- the loop of `net_connect_to_server` -/
  | addrs (req : ReqIx) (rps : List AddrInfo)
  /-- at the call of `conn_get_by_endpoint` -/
  | getConn (req : ReqIx) (ep : Endpoint) (rps : List AddrInfo)
  /-- the wait of `conn_get_by_endpoint` -/
  | connect (req : ReqIx) (conn : ConnIx) (rps : List AddrInfo)
  | connected (req : ReqIx) (conn : ConnIx) (rps : List AddrInfo) (ret : Int)
  /-- the label `req_done` -/
  | done
  /-- the wait after `req_done` -/
  | final
  | cleanup
  | finished

/-- Where the response coroutine is. -/
inductive RspPc : Type 1 where
  /-- the wait before the loop -/
  | start
  /-- the head of the loop of `net_rsp_handler` -/
  | loop
  /-- the wait at the NULL head -/
  | empty
  /-- inside `h0->rsp_handler`, for the list node `h` -/
  | serve (h : Nat) (e : Entry) (p : Io Int)
  | exit
  | finished

/-! ## One client -/

/-- Who writes to the client: the request coroutine, or the `call`-th call of the
    response handler for the entry it serves. -/
inductive Src where
  | req (a : Ans)
  | rsp (call : Nat) (a : Ans)
deriving DecidableEq, Repr

/-- Bytes accepted by one `send` to the client, and the request they answer. -/
structure Chunk where
  no : Nat
  src : Src
  bytes : Bytes

/-- The heap objects of a client. -/
structure Mem where
  conns : ConnIx → Conn
  nconn : Nat
  reqs : ReqIx → Req
  nreq : Nat

/-- `struct net_handle_cxt`; `pool` is in insertion order. -/
structure Cxt where
  pool : List (Endpoint × ConnIx)
  list : LinkedQueue Entry
  evReq : EventId
  evRsp : EventId
  reqBlocked : Bool
  rspBlocked : Bool
  reqWillExit : Bool
  rspWillExited : Bool

/-- What happened so far; no step reads it to decide anything. -/
structure History where
  /-- number of requests begun -/
  seq : Nat
  /-- calls of the response handler for the current head so far -/
  call : Nat
  reqAns : Ans
  rspAns : Ans
  out : List Chunk
  appended : List Entry
  npop : Nat
  /-- bytes of the current head accepted so far, and the heads accepted in full -/
  fwdSent : Nat
  heads : List (ConnIx × ReqIx)
  logged : List (Nat × Int)

structure Client where
  mem : Mem
  cxt : Cxt
  req : ReqPc
  reqWait : Option Wait
  rsp : RspPc
  rspWait : Option Wait
  hist : History

/-! ## Process-wide state -/

/-- Who an open descriptor belongs to. -/
inductive FdOwner where
  | conn (c : ClientId) (i : ConnIx)
  | listen
  | signal
deriving DecidableEq, Repr

/-- A `net_pull_handler_t` with its data. -/
inductive Handler where
  | co (x : Co)
  | accept (sfd : Fd)
  | dns
deriving DecidableEq, Repr

/-- `struct net_handler_t`; `err` is the connection of a `conn_err_handler`. -/
structure PullEnt where
  fd : Fd
  rd : Option Handler
  wr : Option Handler
  err : Option (ClientId × ConnIx)
deriving DecidableEq, Repr

/-- One entry of the array `epoll_wait` fills; `err` is `proxy_epoll_err`. -/
structure EpollEvent where
  fd : Fd
  err : Bool
deriving DecidableEq, Repr

/-- The rest of a dispatch loop: the events of a batch, or the copied entries of
    `net_pull_done`. -/
inductive Todo where
  | batch (evs : List EpollEvent)
  | done (ents : List PullEnt)
deriving DecidableEq, Repr

/-- Where the main loop is. -/
inductive Main where
  /-- the head of the loop of `event_work` -/
  | eventWork
  /-- back from the handler of the head event -/
  | eventRet
  /-- `epoll_wait` -/
  | epollWait
  /-- the head of a dispatch loop -/
  | next (t : Todo)
  /-- `nh.h_read`, then `nh.h_write` still to be called for one event -/
  | callRead (ev : EpollEvent) (nh : PullEnt) (t : Todo)
  | callWrite (ev : EpollEvent) (nh : PullEnt) (t : Todo)
  /-- the loop of `conn_accept_handler` -/
  | accept (sfd : Fd) (k : Main)
  /-- the loop of `dns_notify_handler` -/
  | dnsRead (k : Main)
  | exited
deriving DecidableEq, Repr

/-- Undefined behaviour the run has met. -/
inductive Fault where
  | nullDeref
  | useAfterFree
  | badLength
  /-- an `int` is printed with `%s` -/
  | badFormat
deriving DecidableEq, Repr

inductive ActKind where
  | recv
  | send
  | del
  | close
deriving DecidableEq, Repr

/-- A descriptor operation issued through a `struct conn`, and who the descriptor
    belonged to at that moment. -/
structure Act where
  client : ClientId
  conn : ConnIx
  kind : ActKind
  fd : Fd
  owner : Option FdOwner
deriving DecidableEq, Repr

/-- core/event.c: the queue, whose events carry NULL or not, the handlers, each of
    which is `conn_event_handler` of a coroutine, and `id_max`. -/
structure Events where
  queue : List (EventId × Bool)
  handlers : EventId → Option Co
  idMax : EventId

/-- core/net_pull.c and the descriptors: the handler table in insertion order,
    the descriptors registered with epoll, and the open ones.  `acts` records what
    was done through a `struct conn`. -/
structure Net where
  table : List PullEnt
  fdCnt : Int
  epoll : Fd → Bool
  fds : Fd → Option FdOwner
  acts : List Act

/-- The cache of `net_dns_lookup_a`, the lookups handed to `getaddrinfo_a` and not
    completed, and the one pending instance of SIGUSR1. -/
structure Dns where
  cache : List (Bytes × List AddrInfo)
  flight : List EventId
  sigPending : Option EventId

/-- `callCxt` is `call_cxt`: the coroutine that is running. -/
structure Shared where
  mainStat : MainStat
  main : Main
  callCxt : Option Co
  ev : Events
  net : Net
  dns : Dns
  fault : Option Fault

structure World where
  clients : ClientId → Option Client
  nclients : Nat
  sh : Shared

/-- One client with the shared state: what a step of one of its coroutines sees. -/
structure Local where
  c : ClientId
  cl : Client
  sh : Shared

end HttpProxy
