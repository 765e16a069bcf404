/-
  HttpProxy.Notify.Model

  How the coroutines of a client and the event loop wake each other up: the
  abstract protocol, without connections, requests and programs.

  A `Peer` is one client: its two event ids, the flags of its context, whether
  its request list holds anything, and where its coroutines are.  The `Hub` is
  what all clients share: the event queue and handlers, which coroutine runs, the
  handler table, and the coroutines whose registration the main loop has taken out
  of the table to call them (`pend`).

  `ReqStep` and `RspStep` are the steps of a coroutine and `Step` those of the
  whole system.  A registration for I/O can disappear at any time; nothing here
  depends on how long one lasts.
-/

import HttpProxy.System.Registration

namespace HttpProxy
namespace Notify

/-- Where a request coroutine is. -/
inductive ReqPos where
  | start
  | work
  | dns (eid : EventId)
  | resolved (eid : EventId)
  | done
  | final
  | cleanup
  | finished
deriving DecidableEq

/-- Where a response coroutine is. -/
inductive RspPos where
  | start
  | loop
  | empty
  | serve
  | exit
  | finished
deriving DecidableEq

structure Peer where
  evReq : EventId
  evRsp : EventId
  reqBlocked : Bool
  rspBlocked : Bool
  rspWillExited : Bool
  queued : Bool
  req : ReqPos
  reqWait : Option Wait
  rsp : RspPos
  rspWait : Option Wait

structure Hub where
  ev : Events
  running : Option Co
  /-- the head event of the queue is being dispatched -/
  inEvent : Bool
  exited : Bool
  table : List PullEnt
  pend : List (Fd × Dir × Co)
  flight : List EventId
  sigPending : Option EventId

structure State where
  peers : ClientId → Option Peer
  nclients : Nat
  hub : Hub

/-- The events that have not been dispatched yet. -/
def Hub.queue (h : Hub) : List (EventId × Bool) :=
  if h.inEvent then h.ev.queue.tail else h.ev.queue

/-- On the way from table `t` to `t'`, `x` registers itself for direction `d` of
    `fd`, if `fd` has an entry. -/
structure Registers (t t' : List PullEnt) (x : Co) (fd : Fd) (d : Dir) : Prop where
  le : ∀ fd' d' y, Registered t' fd' d' y → Registered t fd' d' y ∨ fd' = fd ∧ d' = d ∧ y = x
  ok : TableOk t → TableOk t'

-- ============================================================================
-- The coroutines of one client
-- ============================================================================

/-- A step of the request coroutine of client `c`. -/
inductive ReqStep (c : ClientId) (p : Peer) (h : Hub) : Peer → Hub → Prop where
  | go {pos : ReqPos} {t : List PullEnt} : p.req = .work → pos = .work ∨ pos = .done →
      Sheds h.table t → ReqStep c p h { p with req := pos } { h with table := t }
  /-- it waits for I/O -/
  | block {fd : Fd} {d : Dir} {t : List PullEnt} : p.req = .work →
      Registers h.table t ⟨c, .req⟩ fd d →
      ReqStep c p h { p with reqWait := some (.io fd d) } { h with table := t, running := none }
  | lookup : p.req = .work →
      ReqStep c p h { p with req := .dns h.ev.idMax, reqWait := some (.event h.ev.idMax) }
        { h with
          ev := h.ev.eventGetId.eventSetHandler h.ev.idMax ⟨c, .req⟩
          flight := h.flight ++ [h.ev.idMax]
          running := none }
  /-- `getaddrinfo_a` refuses the lookup: an error of the program, in its log message -/
  | noLookup : p.req = .work → ReqStep c p h p { h with ev := h.ev.eventGetId }
  | resolved {eid : EventId} : p.req = .resolved eid →
      ReqStep c p h { p with req := .work } { h with ev := h.ev.eventFreeId eid }
  /-- a node is appended to the request list, and a notice posted if `b` -/
  | append {b : Bool} {t : List PullEnt} : p.req = .work → (p.rspBlocked = true → b = true) →
      Sheds h.table t →
      ReqStep c p h { p with queued := true }
        { h with ev := if b then h.ev.eventPost p.evRsp true else h.ev, table := t }
  | skip : p.req = .done → p.rspWillExited = true →
      ReqStep c p h { p with req := .cleanup } h
  | final : p.req = .done → p.rspWillExited = false →
      ReqStep c p h { p with req := .final, reqBlocked := true, reqWait := some (.event p.evReq) }
        { h with
          ev := (h.ev.eventPost p.evRsp false).eventSetHandler p.evReq ⟨c, .req⟩
          running := none }
  | cleanup {t : List PullEnt} : p.req = .cleanup → Sheds h.table t →
      ReqStep c p h { p with req := .finished, queued := false }
        { h with ev := h.ev.eventFreeId p.evReq, table := t, running := none }

/-- A step of the response coroutine of client `c`. -/
inductive RspStep (c : ClientId) (p : Peer) (h : Hub) : Peer → Hub → Prop where
  /-- it stops at an error of the program -/
  | stuck : RspStep c p h p h
  | leave : p.rsp = .loop → RspStep c p h { p with rsp := .exit } h
  | sleep : p.rsp = .loop → p.queued = false →
      RspStep c p h { p with rsp := .empty, rspBlocked := true, rspWait := some (.event p.evRsp) }
        { h with ev := h.ev.eventSetHandler p.evRsp ⟨c, .rsp⟩, running := none }
  | serve : p.rsp = .loop → p.queued = true → RspStep c p h { p with rsp := .serve } h
  | go {t : List PullEnt} : p.rsp = .serve → Sheds h.table t →
      RspStep c p h p { h with table := t }
  | block {fd : Fd} {d : Dir} {t : List PullEnt} : p.rsp = .serve →
      Registers h.table t ⟨c, .rsp⟩ fd d →
      RspStep c p h { p with rspWait := some (.io fd d) } { h with table := t, running := none }
  /-- the handler returns; the node may be popped -/
  | served {b : Bool} {t : List PullEnt} : p.rsp = .serve → Sheds h.table t →
      RspStep c p h { p with rsp := .loop, queued := b } { h with table := t }
  | exit {t : List PullEnt} : p.rsp = .exit → Sheds h.table t →
      RspStep c p h { p with rsp := .finished }
        { h with
          ev := (if p.reqBlocked then h.ev.eventPost p.evReq false else h.ev).eventFreeId p.evRsp
          table := t
          running := none }

-- ============================================================================
-- The system
-- ============================================================================

/-- The wait of one side. -/
def Peer.wait (p : Peer) : Side → Option Wait
  | .req => p.reqWait
  | .rsp => p.rspWait

/-- The coroutine has returned. -/
def Peer.isFinished (p : Peer) : Side → Bool
  | .req => p.req = .finished
  | .rsp => p.rsp = .finished

/-- A coroutine goes on after a wait that returned `ret`. -/
def Peer.resume (p : Peer) (ret : Int) : Side → Peer
  | .req =>
      match p.req with
      | .start => { p with reqWait := none, reqBlocked := false, req := .work }
      | .dns eid => { p with reqWait := none, req := .resolved eid }
      | .final => { p with reqWait := none, reqBlocked := false, req := .cleanup }
      | _ => { p with reqWait := none }
  | .rsp =>
      match p.rsp with
      | .start => { p with rspWait := none, rspBlocked := false, rsp := .loop }
      | .empty =>
          { p with rspWait := none, rspBlocked := false, rsp := if ret = 0 then .loop else .exit }
      | _ => { p with rspWait := none }

/-- A new client, its coroutines at their first waits. -/
def Peer.new (ev : Events) : Peer where
  evReq := ev.idMax
  evRsp := ev.idMax + 1
  reqBlocked := true
  rspBlocked := true
  rspWillExited := false
  queued := false
  req := .start
  reqWait := some (.event ev.idMax)
  rsp := .start
  rspWait := some (.event (ev.idMax + 1))

/-- The events of a new client are posted and their handlers set. -/
def Events.newClient (ev : Events) (c : ClientId) : Events :=
  let ev' := (ev.eventGetId.eventGetId.eventPost ev.idMax true).eventSetHandler ev.idMax ⟨c, .req⟩
  (ev'.eventPost (ev.idMax + 1) true).eventSetHandler (ev.idMax + 1) ⟨c, .rsp⟩

def State.setPeer (s : State) (c : ClientId) (p : Peer) : State :=
  { s with peers := Function.update s.peers c (some p) }

inductive Step (s : State) : State → Prop where
  | req {c : ClientId} {p p' : Peer} {h' : Hub} : s.hub.running = some ⟨c, .req⟩ →
      s.peers c = some p → ReqStep c p s.hub p' h' → Step s { s.setPeer c p' with hub := h' }
  | rsp {c : ClientId} {p p' : Peer} {h' : Hub} : s.hub.running = some ⟨c, .rsp⟩ →
      s.peers c = some p → RspStep c p s.hub p' h' → Step s { s.setPeer c p' with hub := h' }
  /-- an event is dispatched to the coroutine registered for it; NULL data make its wait
      return 1 -/
  | wakeEvent {eid : EventId} {d : Bool} {q : List (EventId × Bool)} {x : Co} {p : Peer} :
      s.hub.running = none → s.hub.inEvent = false →
      s.hub.ev.queue = (eid, d) :: q → s.hub.ev.handlers eid = some x →
      s.peers x.client = some p → p.isFinished x.side = false →
      Step s { s.setPeer x.client (p.resume (if d then 0 else 1) x.side) with
        hub := { s.hub with inEvent := true, running := some x } }
  | noHandler {eid : EventId} {d : Bool} {q : List (EventId × Bool)} :
      s.hub.running = none → s.hub.inEvent = false →
      s.hub.ev.queue = (eid, d) :: q → s.hub.ev.handlers eid = none →
      Step s { s with hub := { s.hub with inEvent := true } }
  | eventRet : s.hub.running = none → s.hub.inEvent = true →
      Step s { s with hub :=
        { s.hub with inEvent := false, ev := { s.hub.ev with queue := s.hub.ev.queue.tail } } }
  /-- a coroutine is called for the descriptor it is registered for -/
  | wakeIo {fd : Fd} {d : Dir} {x : Co} {pend : List (Fd × Dir × Co)} {p : Peer} {ret : Int} :
      s.hub.running = none → s.hub.inEvent = false → s.hub.exited = false →
      s.hub.pend = (fd, d, x) :: pend → s.peers x.client = some p → p.isFinished x.side = false →
      Step s { s.setPeer x.client (p.resume ret x.side) with
        hub := { s.hub with running := some x, pend } }
  /-- the handlers of one descriptor are taken out of the table -/
  | take {e : PullEnt} {t : List PullEnt} : s.hub.running = none → s.hub.inEvent = false →
      s.hub.pend = [] → e ∈ s.hub.table → Sheds s.hub.table t →
      (∀ d x, ¬Registered t e.fd d x) →
      Step s { s with hub := { s.hub with table := t, pend := e.calls } }
  /-- the handlers of all descriptors are taken out of the table, to be called last -/
  | takeAll : s.hub.running = none → s.hub.inEvent = false → s.hub.pend = [] →
      Step s { s with hub := { s.hub with table := [], pend := s.hub.table.flatMap PullEnt.calls } }
  | accept {t : List PullEnt} : s.hub.running = none → s.hub.inEvent = false →
      s.hub.exited = false → Sheds s.hub.table t →
      Step s
        { peers := Function.update s.peers s.nclients (some (Peer.new s.hub.ev))
          nclients := s.nclients + 1
          hub := { s.hub with ev := Events.newClient s.hub.ev s.nclients, table := t } }
  /-- `dns_notify_handler` reads the pending signal -/
  | dnsRead {eid : EventId} : s.hub.running = none → s.hub.inEvent = false →
      s.hub.sigPending = some eid →
      Step s { s with hub := { s.hub with ev := s.hub.ev.eventPost eid false, sigPending := none } }
  | dnsDone {eid : EventId} : eid ∈ s.hub.flight →
      Step s { s with hub :=
        { s.hub with
          flight := s.hub.flight.erase eid
          sigPending := some (s.hub.sigPending.getD eid) } }
  /-- a step of the main loop that concerns no coroutine -/
  | main {t : List PullEnt} :
      Sheds s.hub.table t → Step s { s with hub := { s.hub with table := t } }
  | exit : s.hub.running = none → s.hub.inEvent = false → s.hub.ev.queue = [] →
      Step s { s with hub :=
        { s.hub with exited := true, ev := { s.hub.ev with handlers := fun _ => none } } }

end Notify
end HttpProxy
