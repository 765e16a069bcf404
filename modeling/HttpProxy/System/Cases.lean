/-
  HttpProxy.System.Cases

  What one step of a coroutine can do: `ReqCase` and `RspCase` list the steps of the
  two coroutines with their guards, each with the state it leads to in terms of the
  operations of core/conn.c, core/mem.c and core/net_handle.c.  An invariant of a
  client is proved by cases on these, so that no proof unfolds `reqStep` or `rspStep`.
-/

import HttpProxy.System.Client
import HttpProxy.System.Heads

namespace HttpProxy

open Lib

namespace Local

/-- A request is parsed; `net_connect_req_handler` starts with `req->host = req->path`. -/
def begun (l : Local) (data : NetData) (kind : HandlerKind) : Local :=
  let (req, ret) := netParseReq (netReqInit data)
  l.newReq (if kind = .connect ∧ ret = 0 then { req with host := req.path } else req) kind

/-- `net_handle_list` gets a node for a request that has been forwarded, and a response coroutine
    that sleeps is told. -/
def forwarded (l : Local) (j : ReqIx) (s : ConnIx) : Local :=
  let l := l.appendEntry j s
  if l.cl.cxt.rspBlocked then { l with sh.ev := l.sh.ev.eventPost l.cl.cxt.evRsp true } else l

/-- The request with a Host field, as it is forwarded. -/
def withHost (l : Local) (j : ReqIx) : Local :=
  let req := (l.cl.mem.reqs j).req
  let data :=
    if netDataGetEnt req.data (bytesOf "Host") = none then
      netDataSetEntOffset req.data (bytesOf "Host") req.host
    else req.data
  let req := { req with data }
  { l with
    cl.mem := l.cl.mem.setReq j fun r => { r with req }
    cl.hist.fwdSent := 0 }

/-- A CONNECT request is queued, and the response coroutine is told. -/
def connected (l : Local) (j : ReqIx) (s : ConnIx) : Local :=
  let l := l.appendEntry j s
  { l with sh.ev := l.sh.ev.eventPost l.cl.cxt.evRsp true }

/-- The head of a request. -/
def headOf (l : Local) (j : ReqIx) : Bytes := (reqHeader (l.cl.mem.reqs j).req).content

/-- A connection that has just been made goes into the pool. -/
def pooled (l : Local) (i : ConnIx) : Local :=
  let l := l.connInit i
  let l := if (l.cl.mem.conns i).stat = .closed then l.decrefConn i else l
  { l with cl.cxt := l.cl.cxt.poolAdd (l.cl.mem.conns i).ep i }

/-- `net_connect_to_server` has found server `s` for request `j`. -/
inductive Got (l : Local) (j : ReqIx) (s : ConnIx) : Local → Prop where
  | http : (l.cl.mem.reqs j).kind = .http →
      Got l j s ((l.withHost j).setReqPc
        (.io (.forward j s ((l.withHost j).headOf j))
          (connWrite .server ((l.withHost j).headOf j))))
  | connect : (l.cl.mem.reqs j).kind = .connect →
      Got l j s ((l.connected j s).setReqPc
        (.io (.ok200 j s) (do Io.mark .ok200; connWrite .client msg200)))

/-- A request that has found its server is forwarded or, if it is a CONNECT, answered. -/
theorem gotServer_cases (l : Local) (j : ReqIx) (s : ConnIx) : Got l j s (l.gotServer j s) := by
  unfold gotServer
  split
  · rename_i hkind
    have hhead : (l.withHost j).headOf j = (reqHeader { (l.cl.mem.reqs j).req with
        data := if netDataGetEnt (l.cl.mem.reqs j).req.data (bytesOf "Host") = none then
            netDataSetEntOffset (l.cl.mem.reqs j).req.data (bytesOf "Host")
              (l.cl.mem.reqs j).req.host
          else (l.cl.mem.reqs j).req.data }).content := by
      unfold headOf withHost Mem.setReq
      dsimp only
      rw [Function.update_self]
    have hgot := Got.http (s := s) hkind
    rw [hhead] at hgot
    exact hgot
  · exact .connect ‹_›

/-- A new connection goes through the pool to the request it was made for. -/
theorem gotNewConn_eq (l : Local) (j : ReqIx) (i : ConnIx) :
    l.gotNewConn j i = ((l.pooled i).increfConn i).gotServer j i := rfl

/-- The endpoint `net_connect_to_server` looks for at an address. -/
def endpointOf (l : Local) (j : ReqIx) (rp : AddrInfo) : Endpoint :=
  ⟨rp.family, htons (l.cl.mem.reqs j).req.port, rp.addr⟩

/-- A closed connection leaves the pool. -/
def evicted (l : Local) (ep : Endpoint) (s : ConnIx) : Local :=
  { l with cl.cxt := l.cl.cxt.poolDel ep }.decrefConn s

-- ============================================================================
-- What these leave alone
-- ============================================================================

variable (l : Local)

/-- `l'` has the context, the response coroutine and the record of `l`. -/
abbrev SameCxt (l l' : Local) : Prop :=
  l'.cl.cxt = l.cl.cxt ∧ l'.cl.rsp = l.cl.rsp ∧ l'.cl.hist = l.cl.hist

/-- A wait is noted beside the coroutine, which stays at its program counter. -/
@[simp] theorem park_frame (side : Side) (x : Wait) :
    SameCxt l (l.park side x) ∧ (l.park side x).cl.mem = l.cl.mem ∧
      (l.park side x).cl.req = l.cl.req := by
  cases side <;> cases x <;> simp [SameCxt, park, Client.setWait]

/-- The 502 is begun, and nothing is given up for it. -/
@[simp] theorem noServer_frame (j : ReqIx) :
    SameCxt l (l.noServer j) ∧ (l.noServer j).cl.mem = l.cl.mem ∧
      (l.noServer j).cl.req = .io (.badGateway j none) (netBadGateway .client) := by
  simp [SameCxt, noServer]

/-- The references of a failed request are dropped, and the coroutine is at req_done. -/
@[simp] theorem reqFailed_frame (j : ReqIx) (server : Option ConnIx) :
    SameCxt l (l.reqFailed j server) ∧ (l.reqFailed j server).cl.req = .done := by
  cases server <;> simp [SameCxt, reqFailed]

/-- Whatever the lookup has found, the loop over the addresses is next. -/
@[simp] theorem dnsResolved_frame (j : ReqIx) (eid : EventId) (res : Option (List AddrInfo)) :
    SameCxt l (l.dnsResolved j eid res) ∧ (l.dnsResolved j eid res).cl.mem = l.cl.mem ∧
      ∃ rps, (l.dnsResolved j eid res).cl.req = .addrs j rps := by
  cases res <;> simp [SameCxt, dnsResolved]

@[simp] theorem begun_frame (data : NetData) (kind : HandlerKind) :
    SameCxt l (l.begun data kind) ∧ (l.begun data kind).cl.req = l.cl.req := by
  simp [SameCxt, begun]

/-- Only the record of the head that is forwarded starts anew. -/
@[simp] theorem withHost_frame (j : ReqIx) :
    (l.withHost j).cl.cxt = l.cl.cxt ∧ (l.withHost j).cl.rsp = l.cl.rsp ∧
      (l.withHost j).cl.req = l.cl.req ∧
      (l.withHost j).cl.hist = { l.cl.hist with fwdSent := 0 } := by
  simp [withHost]

/-- The list gets the entry, the record too, and both references are counted. -/
@[simp] theorem appendEntry_frame (j : ReqIx) (s : ConnIx) :
    (l.appendEntry j s).cl.cxt = { l.cl.cxt with
        list := l.cl.cxt.list.push { server := s, req := j, no := l.cl.hist.seq } } ∧
      (l.appendEntry j s).cl.rsp = l.cl.rsp ∧ (l.appendEntry j s).cl.req = l.cl.req ∧
      (l.appendEntry j s).cl.hist = { l.cl.hist with
        appended := l.cl.hist.appended ++ [{ server := s, req := j, no := l.cl.hist.seq }] } ∧
      (l.appendEntry j s).cl.mem = ((l.increfConn s).increfReq j).cl.mem := by
  simp [appendEntry]

@[simp] theorem connected_cl (j : ReqIx) (s : ConnIx) :
    (l.connected j s).cl = (l.appendEntry j s).cl := rfl

@[simp] theorem forwarded_cl (j : ReqIx) (s : ConnIx) :
    (l.forwarded j s).cl = (l.appendEntry j s).cl := by
  unfold forwarded
  dsimp only
  split <;> rfl

/-- A new connection ends up in the pool, under its own endpoint. -/
@[simp] theorem pooled_frame (i : ConnIx) :
    (l.pooled i).cl.cxt = l.cl.cxt.poolAdd ((l.pooled i).cl.mem.conns i).ep i ∧
      (l.pooled i).cl.rsp = l.cl.rsp ∧ (l.pooled i).cl.req = l.cl.req ∧
      (l.pooled i).cl.hist = l.cl.hist := by
  unfold pooled
  dsimp only
  split <;> simp

/-- A closed connection leaves the pool, and nothing else of the context changes. -/
@[simp] theorem evicted_frame (ep : Endpoint) (s : ConnIx) :
    (l.evicted ep s).cl.cxt = l.cl.cxt.poolDel ep ∧ (l.evicted ep s).cl.rsp = l.cl.rsp ∧
      (l.evicted ep s).cl.req = l.cl.req ∧ (l.evicted ep s).cl.hist = l.cl.hist := by
  simp [evicted]

@[simp] theorem reqFailed_heads (j : ReqIx) (server : Option ConnIx) :
    SameHeads l (l.reqFailed j server) := by
  cases server <;> simp [SameHeads, reqFailed]

@[simp] theorem pooled_heads (i : ConnIx) : SameHeads l (l.pooled i) := by
  unfold pooled
  dsimp only
  split <;> simp [SameHeads]

@[simp] theorem evicted_heads (ep : Endpoint) (s : ConnIx) : SameHeads l (l.evicted ep s) := by
  simp [SameHeads, evicted]

/-- Adding a Host field leaves the buffer as it is. -/
@[simp] theorem withHost_heads (j : ReqIx) : SameHeads l (l.withHost j) := by
  unfold withHost
  refine ⟨rfl, l.cl.mem.setReq_head j (fun r => { r with req := _ }) rfl ?_⟩
  dsimp only
  split <;> rfl

/-- The heads of earlier requests stay as they are when one more is parsed. -/
theorem begun_head (data : NetData) (kind : HandlerKind) {j : ReqIx} (hj : j < l.cl.mem.nreq) :
    (l.begun data kind).cl.mem.head j = l.cl.mem.head j := by
  unfold begun
  exact l.newReq_head _ kind hj

end Local

/-- What a step of the request coroutine does to `l`. -/
inductive ReqCase (l : Local) : Local → Prop where
  | stop : l.cl.req = .loop → ReqCase l (l.setReqPc .done)
  | fetch {heap : Nat → Bytes} : l.cl.req = .loop →
      ReqCase l ({ l with cl.hist.seq := l.cl.hist.seq + 1 }.setReqPc
        (.io .fetch (netFetchHttp .client (netDataInit heap))))
  | io {α : Type} {k : ReqK α} {p p' : Io α} {l₁ : Local} : l.cl.req = .io k p →
      IoCase l .req k.srv p l₁ p' → ReqCase l (l₁.setReqPc (.io k p'))
  /-- nothing is fetched, or no handler is found -/
  | unknown {x : Int × NetData} : l.cl.req = .io .fetch (.ret x) →
      ReqCase l (l.setReqPc (.io (.badRequest none) (netBadRequest .client)))
  | refused {data : NetData} {kind : HandlerKind} : l.cl.req = .io .fetch (.ret (0, data)) →
      ReqCase l ((l.begun data kind).setReqPc
        (.io (.badRequest (some l.cl.mem.nreq)) (netBadRequest .client)))
  | dispatch {data : NetData} {kind : HandlerKind} : l.cl.req = .io .fetch (.ret (0, data)) →
      netGetHandler (data.buf.str 0) = some kind → (netParseReq (netReqInit data)).2 = 0 →
      ReqCase l ((l.begun data kind).setReqPc (.resolve l.cl.mem.nreq))
  | answered {u : Unit} : l.cl.req = .io (.badRequest none) (.ret u) →
      ReqCase l (l.setReqPc .done)
  | answeredBad {j : ReqIx} {u : Unit} : l.cl.req = .io (.badRequest (some j)) (.ret u) →
      ReqCase l ((l.decrefReq j).setReqPc .done)
  | answeredGateway {j : ReqIx} {server : Option ConnIx} {u : Unit} :
      l.cl.req = .io (.badGateway j server) (.ret u) → ReqCase l (l.reqFailed j server)
  | forwarded {j : ReqIx} {s : ConnIx} {head : Bytes} :
      l.cl.req = .io (.forward j s head) (.ret 0) →
      ReqCase l ((l.forwarded j s).setReqPc (.io (.body j s)
        (netTransferBody .server .client ((l.forwarded j s).cl.mem.reqs j).req.data)))
  | notForwarded {j : ReqIx} {s : ConnIx} {head : Bytes} {ret : Int} :
      l.cl.req = .io (.forward j s head) (.ret ret) → ret ≠ 0 →
      ReqCase l ((l.decrefConn s).setReqPc (.resolve j))
  | bodyFailed {j : ReqIx} {s : ConnIx} {ret : Int} :
      l.cl.req = .io (.body j s) (.ret ret) → ret ≠ 0 →
      ReqCase l (l.setReqPc (.io (.badGateway j (some s)) (netBadGateway .client)))
  | bodyDone {j : ReqIx} {s : ConnIx} : l.cl.req = .io (.body j s) (.ret 0) →
      ReqCase l (((l.decrefConn s).decrefReq j).setReqPc .loop)
  | okFailed {j : ReqIx} {s : ConnIx} {ret : Int} :
      l.cl.req = .io (.ok200 j s) (.ret ret) → ret ≠ 0 →
      ReqCase l (l.setReqPc (.io (.badGateway j (some s)) (netBadGateway .client)))
  | okDone {j : ReqIx} {s : ConnIx} : l.cl.req = .io (.ok200 j s) (.ret 0) →
      ReqCase l (l.setReqPc (.io (.tunnel j s) (netTunnel .server .client)))
  | tunnelDone {j : ReqIx} {s : ConnIx} {ret : Int} : l.cl.req = .io (.tunnel j s) (.ret ret) →
      ReqCase l (l.reqFailed j (some s))
  | cached {j : ReqIx} {rps : List AddrInfo} : l.cl.req = .resolve j →
      ReqCase l (l.setReqPc (.addrs j rps))
  | lookup {j : ReqIx} : l.cl.req = .resolve j →
      ReqCase l (({ l with
          sh.ev := l.sh.ev.eventGetId
          sh.dns.flight := l.sh.dns.flight ++ [l.sh.ev.idMax] }.setReqPc
        (.dns j l.sh.ev.idMax)).park .req (.event l.sh.ev.idMax))
  /-- the lookup is refused, and its error is logged with a format that does not fit -/
  | noLookup {j : ReqIx} : l.cl.req = .resolve j →
      ReqCase l ({ l with sh.ev := l.sh.ev.eventGetId }.raise .badFormat)
  | resolved {j : ReqIx} {eid : EventId} {res : Option (List AddrInfo)} :
      l.cl.req = .resolved j eid → ReqCase l (l.dnsResolved j eid res)
  /-- no address is left, or the proxy is about to exit -/
  | noAddr {j : ReqIx} {rps : List AddrInfo} : l.cl.req = .addrs j rps → ReqCase l (l.noServer j)
  | otherFamily {j : ReqIx} {rp : AddrInfo} {rps : List AddrInfo} :
      l.cl.req = .addrs j (rp :: rps) → ReqCase l (l.setReqPc (.addrs j rps))
  | notPooled {j : ReqIx} {rp : AddrInfo} {rps : List AddrInfo} :
      l.cl.req = .addrs j (rp :: rps) → l.cl.cxt.poolFind (l.endpointOf j rp) = none →
      ReqCase l (l.setReqPc (.getConn j (l.endpointOf j rp) rps))
  | evict {j : ReqIx} {rp : AddrInfo} {rps : List AddrInfo} {s : ConnIx} :
      l.cl.req = .addrs j (rp :: rps) → l.sh.mainStat ≠ .exiting → rp.family ≠ .other →
      l.cl.cxt.poolFind (l.endpointOf j rp) = some s →
      (l.cl.mem.conns s).stat = .closed →
      ReqCase l ((l.evicted (l.endpointOf j rp) s).setReqPc (.getConn j (l.endpointOf j rp) rps))
  | reuse {j : ReqIx} {rp : AddrInfo} {rps : List AddrInfo} {s : ConnIx} :
      l.cl.req = .addrs j (rp :: rps) → l.cl.cxt.poolFind (l.endpointOf j rp) = some s →
      (l.cl.mem.conns s).stat ≠ .closed → ReqCase l ((l.increfConn s).gotServer j s)
  | noConn {j : ReqIx} {ep : Endpoint} {rps : List AddrInfo} :
      l.cl.req = .getConn j ep rps → ReqCase l (l.setReqPc (.addrs j rps))
  /-- the connection is there at once, or the wait for it could not be registered -/
  | newConn {j : ReqIx} {ep : Endpoint} {rps : List AddrInfo} {fd : Fd} {ok : Bool} :
      l.cl.req = .getConn j ep rps → l.sh.net.fds fd = none →
      ReqCase l ((l.newConn fd ep ok).gotNewConn j l.cl.mem.nconn)
  | connecting {j : ReqIx} {ep : Endpoint} {rps : List AddrInfo} {fd : Fd} :
      l.cl.req = .getConn j ep rps → l.sh.net.fds fd = none →
      ReqCase l
        (((l.newConn fd ep true).setReqPc (.connect j l.cl.mem.nconn rps)).park .req (.io fd .read))
  | notConnected {j : ReqIx} {i : ConnIx} {rps : List AddrInfo} :
      l.cl.req = .connected j i rps (-1) →
      ReqCase l (((l.connDel i).decrefConnNull i).setReqPc (.addrs j rps))
  | connected {j : ReqIx} {i : ConnIx} {rps : List AddrInfo} {ret : Int} :
      l.cl.req = .connected j i rps ret → ret ≠ -1 → ReqCase l (l.gotNewConn j i)
  | done : l.cl.req = .done → ReqCase l l.reqDone
  | cleanup : l.cl.req = .cleanup → ReqCase l l.reqCleanup

section

variable {l l' : Local} {ch : Choice}

/-- Where the request coroutine goes when an I/O call has returned. -/
theorem reqRet_cases {α : Type} {k : ReqK α} {a : α} (hreq : l.cl.req = .io k (.ret a)) :
    ReqCase l (l.reqRet k a) := by
  cases k with
  | fetch =>
      obtain ⟨ret, data⟩ := a
      show ReqCase l (l.reqFetched ret data)
      unfold Local.reqFetched
      split
      · exact .unknown hreq
      rename_i hret
      obtain rfl : ret = 0 := Classical.not_not.mp hret
      split
      · exact .unknown hreq
      rename_i kind hkind
      dsimp only
      split
      · exact .refused hreq
      · rename_i hparse
        exact .dispatch hreq hkind (Classical.not_not.mp hparse)
  | badRequest req =>
      cases req with
      | none => exact .answered hreq
      | some j => exact .answeredBad hreq
  | badGateway j server => exact .answeredGateway hreq
  | forward j s head =>
      show ReqCase l (l.reqForwarded j s a)
      unfold Local.reqForwarded
      split
      · rename_i hret
        rw [hret] at hreq
        exact .forwarded hreq
      · exact .notForwarded hreq ‹_›
  | body j s =>
      show ReqCase l
        (if a ≠ 0 then l.setReqPc (.io (.badGateway j (some s)) (netBadGateway .client))
        else ((l.decrefConn s).decrefReq j).setReqPc .loop)
      split
      · exact .bodyFailed hreq ‹_›
      · rename_i hret
        rw [Classical.not_not.mp hret] at hreq
        exact .bodyDone hreq
  | ok200 j s =>
      show ReqCase l
        (if a ≠ 0 then l.setReqPc (.io (.badGateway j (some s)) (netBadGateway .client))
        else l.setReqPc (.io (.tunnel j s) (netTunnel .server .client)))
      split
      · exact .okFailed hreq ‹_›
      · rename_i hret
        rw [Classical.not_not.mp hret] at hreq
        exact .okDone hreq
  | tunnel j s => exact .tunnelDone hreq

/-- One turn of the loop of net_connect_to_server. -/
theorem tryAddr_cases {j : ReqIx} {rps : List AddrInfo} (hreq : l.cl.req = .addrs j rps) :
    ReqCase l (l.tryAddr j rps) := by
  cases rps with
  | nil => exact .noAddr hreq
  | cons rp rps =>
      rw [Local.tryAddr]
      split
      · exact .noAddr hreq
      rename_i hstat
      split
      · exact .otherFamily hreq
      rename_i hfamily
      dsimp only
      split
      · rename_i hpool
        exact .notPooled hreq hpool
      · rename_i s hpool
        split
        · exact .evict hreq hstat hfamily hpool ‹_›
        · exact .reuse hreq hpool ‹_›

/-- No other step of the request coroutine is possible. -/
theorem reqStep_cases (hs : reqStep l ch = some l') : ReqCase l l' := by
  unfold reqStep at hs
  split at hs <;> rename_i hreq
  · split at hs
    · rw [← Option.some.inj hs]
      exact .stop hreq
    · rw [← Option.some.inj hs]
      exact .fetch hreq
  · rw [← Option.some.inj hs]
    exact reqRet_cases hreq
  · obtain ⟨⟨l₁, p'⟩, hio, rfl⟩ := Option.map_eq_some_iff.mp hs
    exact .io hreq (Local.ioStep_inv hio)
  · unfold Local.dnsLookup at hs
    dsimp only at hs
    split at hs
    · rw [← Option.some.inj hs]
      exact .cached hreq
    split at hs
    · split at hs
      · rw [← Option.some.inj hs]
        exact .lookup hreq
      · rw [← Option.some.inj hs]
        exact .noLookup hreq
    · exact absurd hs (by simp)
  · split at hs
    · rw [← Option.some.inj hs]
      exact .resolved hreq
    · exact absurd hs (by simp)
  · rw [← Option.some.inj hs]
    exact tryAddr_cases hreq
  · split at hs
    · rename_i res
      cases res with
      | fail =>
          rw [← Option.some.inj hs]
          exact .noConn hreq
      | connected fd ok =>
          rw [Local.getConn] at hs
          split at hs
          · exact absurd hs (by simp)
          · rename_i hfd
            rw [← Option.some.inj hs]
            exact .newConn hreq (by simpa using hfd)
      | inProgress fd ok =>
          rw [Local.getConn] at hs
          split at hs
          · exact absurd hs (by simp)
          · rename_i hfd
            dsimp only at hs
            split at hs <;> rename_i hok <;> rw [← Option.some.inj hs]
            · rw [hok]
              exact .connecting hreq (by simpa using hfd)
            · exact .newConn hreq (by simpa using hfd)
    · exact absurd hs (by simp)
  · rename_i j i rps ret
    rw [← Option.some.inj hs]
    unfold Local.connConnected
    split
    · rename_i hret
      rw [hret] at hreq
      exact .notConnected hreq
    · exact .connected hreq ‹_›
  · rw [← Option.some.inj hs]
    exact .done hreq
  · rw [← Option.some.inj hs]
    exact .cleanup hreq
  all_goals exact absurd hs (by simp)

end

/-- What a step of the response coroutine does to `l`. -/
inductive RspCase (l : Local) : Local → Prop where
  /-- the context, a node, a request or a connection is used after it was freed, or a lookup
      returns NULL -/
  | stuck (f : Fault) : RspCase l (l.raise f)
  | leave : l.cxtDead = false → l.cl.rsp = .loop → RspCase l (l.setRspPc .exit)
  | sleep : l.cxtDead = false → l.cl.rsp = .loop → l.cl.cxt.list.head = none →
      RspCase l (((l.setRspBlocked true).setRspPc .empty).park .rsp (.event l.cl.cxt.evRsp))
  | serve {h : Nat} {n : Lib.Node Entry} {kind : HandlerKind} {heap : Nat → Bytes} :
      l.cxtDead = false → l.cl.rsp = .loop → l.cl.cxt.list.head = some h →
      l.cl.cxt.list.nodes h = some n → (l.cl.mem.reqs n.val.req).cnt ≠ 0 →
      netGetHandler (l.reqStr n.val.req 0) = some kind →
      RspCase l (l.setRspPc (.serve h n.val (rspHandler heap kind)))
  | io {h : Nat} {e : Entry} {p p' : Io Int} {l₁ : Local} : l.cxtDead = false →
      l.cl.rsp = .serve h e p → IoCase l .rsp e.server p l₁ p' →
      RspCase l (l₁.setRspPc (.serve h e p'))
  | evict {h : Nat} {e : Entry} {ret : Int} {t : ConnIx} : l.cxtDead = false →
      l.cl.rsp = .serve h e (.ret ret) → (l.cl.mem.conns e.server).cnt ≠ 0 →
      (l.cl.mem.conns e.server).stat = .closed →
      l.cl.cxt.poolFind (l.cl.mem.conns e.server).ep = some t →
      RspCase l ((l.evicted (l.cl.mem.conns e.server).ep e.server).rspPop h e)
  | again {h : Nat} {e : Entry} {ret : Int} : l.cxtDead = false →
      l.cl.rsp = .serve h e (.ret ret) → (l.cl.mem.conns e.server).stat ≠ .closed →
      RspCase l ({ l with cl.hist.call := l.cl.hist.call + 1 }.setRspPc .loop)
  | pop {h : Nat} {e : Entry} {ret : Int} : l.cxtDead = false →
      l.cl.rsp = .serve h e (.ret ret) → (l.cl.mem.conns e.server).cnt ≠ 0 →
      (l.cl.mem.conns e.server).stat ≠ .closed → RspCase l (l.rspPop h e)
  | exit : l.cxtDead = false → l.cl.rsp = .exit → RspCase l l.rspExit

/-- No other step of the response coroutine is possible. -/
theorem rspStep_cases {l l' : Local} {ch : Choice} (hs : rspStep l ch = some l') :
    RspCase l l' := by
  unfold rspStep at hs
  split at hs
  · rw [← Option.some.inj hs]
    exact .stuck _
  rename_i hdead
  rw [Bool.not_eq_true] at hdead
  split at hs <;> rename_i hrsp
  · rw [← Option.some.inj hs]
    unfold Local.rspLoop
    split
    · exact .leave hdead hrsp
    split
    · rename_i hhead
      exact .sleep hdead hrsp hhead
    split
    · exact .stuck _
    split
    · exact .stuck _
    split
    · exact .stuck _
    · exact .serve hdead hrsp ‹_› ‹_› ‹_› ‹_›
  · rw [← Option.some.inj hs]
    unfold Local.rspServed
    dsimp only
    split
    · exact .stuck _
    split
    · split
      · exact .stuck _
      · exact .evict hdead hrsp ‹_› ‹_› ‹_›
    split
    · exact .again hdead hrsp ‹_›
    · exact .pop hdead hrsp ‹_› ‹_›
  · obtain ⟨⟨l₁, p'⟩, hio, rfl⟩ := Option.map_eq_some_iff.mp hs
    exact .io hdead hrsp (Local.ioStep_inv hio)
  · rw [← Option.some.inj hs]
    exact .exit hdead hrsp
  all_goals exact absurd hs (by simp)

end HttpProxy
