/-
  HttpProxy.Queue.Logged

  The size `net_http_rsp_handler` logs is read from `client->tx`, which both
  coroutines of the client count in and which is an `int`.  In runs in which the
  request coroutine does not write to the client while a response is relayed, it is
  the number of bytes of the response the client has received, as an `int` shows it
  (`logged_relayed`): for a response of 2^31 bytes or more it is another number.

  `Tallied` is the invariant.  It says of each coroutine, running or waiting, that what
  is left of its program meets `tallySpec`.
-/

import HttpProxy.Queue.Forward
import HttpProxy.Queue.Labels
import HttpProxy.Stream.Tally
import HttpProxy.Stream.Number

namespace HttpProxy

open Lib Notify

-- ============================================================================
-- The condition
-- ============================================================================

/-- A response to an HTTP request is being relayed. -/
def Client.relaysHttp (cl : Client) : Bool :=
  match cl.rsp with
  | .serve _ e _ => netGetHandler ((cl.mem.reqs e.req).req.data.buf.str 0) = some .http
  | _ => false

/-- The request coroutine is at a `send` to the client. -/
def Client.reqSends (cl : Client) : Bool :=
  match cl.req with
  | .io _ (.call (.sys .client (.send _)) _) => true
  | _ => false

/-- The request coroutine does not write to the client while a response is relayed. -/
def Local.logOk : Side → Local → Choice → Bool
  | .rsp, _, _ => true
  | .req, l, _ => !(l.cl.relaysHttp && l.cl.reqSends)

-- ============================================================================
-- One operation
-- ============================================================================

/-- `tx` of the client. -/
def Client.tx (cl : Client) : Int := cl.mem.clientIo.tx

section

variable {l l' : Local} {cl cl' : Client} {side : Side} {srv : ConnIx} {http : Bool} {α : Type}
  {p p' : Io α} {n : Nat}

/-- What is left of the program, when `n` bytes have been sent. -/
def Meets (srv : ConnIx) (http : Bool) (p : Io α) (t : Tally) : Prop :=
  p.Wlp (tallySpec srv http) (fun _ t' => t'.Exact) t

/-- What an operation does to the count of the client. -/
inductive IoTally (l : Local) (side : Side) (srv : ConnIx) (http : Bool) (n : Nat) (p p' : Io α)
    (l' : Local) : Prop where
  | goes : l'.cl.wait side = l.cl.wait side → l'.cl.hist.out = l.cl.hist.out →
      (l'.cl.tx = l.cl.tx ∨ l'.cl.tx = toInt32 n) → Meets srv http p' ⟨l'.cl.tx, n⟩ →
      IoTally l side srv http n p p' l'
  | sends {data bs : Bytes} {k : SysRes → Io α} : p = .call (.sys .client (.send data)) k →
      l'.cl.wait side = l.cl.wait side → l'.cl.hist = l.cl.logSend side .client bs →
      l'.cl.tx = l.cl.tx → Meets srv http p' ⟨l'.cl.tx, n + bs.length⟩ →
      IoTally l side srv http n p p' l'
  | waits : l'.cl.wait side ≠ none → l'.cl.hist.out = l.cl.hist.out → l'.cl.tx = l.cl.tx →
      l.cl.tx = toInt32 n → (∀ ret t, t.Exact → Meets srv http (ioResume ret p') t) →
      IoTally l side srv http n p p' l'

theorem IoCase.tally (h : IoCase l side srv p l' p') (hp : Meets srv http p ⟨l.cl.tx, n⟩) :
    IoTally l side srv http n p p' l' := by
  cases h with
  | unroll body s k => exact .goes rfl rfl (.inl rfl) (Prog.Wlp.unroll hp)
  | stuck o k f => exact .goes rfl rfl (.inl rfl) hp
  | yield r d k hfreed =>
      refine .waits ?_ (by simp) ?_ hp.1 fun ret t ht => hp.2 ret t ht
      · cases side <;> simp [Client.wait, Local.park, Client.setWait]
      · simp [Client.tx]
  | act hfreed hact =>
      cases hact with
      | mainStat => exact .goes rfl rfl (.inl rfl) (hp.2 _ _ rfl)
      | stat r => exact .goes rfl rfl (.inl rfl) (hp.2 _ _ rfl)
      | getBuf r =>
          refine .goes rfl rfl (.inl rfl) (hp.2 _ _ ?_)
          cases r with
          | client => exact ⟨rfl, rfl⟩
          | server => rfl
      | setBuf r b =>
          cases r with
          | client =>
              have htx : (l.cl.mem.setConn 0 fun c => { c with io := b }).clientIo = b := by
                simp [Mem.clientIo, Mem.setConn]
              have htx' : (l.cl.mem.setConn 0 fun c => { c with io := b }).clientIo.tx = b.tx := by
                rw [htx]
              refine .goes rfl rfl (.inr (htx'.trans hp.1)) (hp.2 () _ ?_)
              exact congrArg (Tally.mk · n) htx'
          | server =>
              have htx : (l.cl.mem.setConn srv fun c => { c with io := b }).clientIo =
                  l.cl.mem.clientIo := Mem.setConn_clientIo_of_ne _ hp.1 _
              refine .goes rfl rfl (.inl (congrArg IoBuf.tx htx)) (hp.2 () _ ?_)
              exact congrArg (fun b => Tally.mk b.tx n) htx
      | sys r q res hok =>
          cases q with
          | recv len =>
              refine .goes rfl ?_ (.inl rfl) (hp.2 res _ ?_)
              · cases res <;> rfl
              · cases r <;> cases res <;> rfl
          | send data =>
              cases r with
              | client =>
                  cases res with
                  | ok bs => exact .sends rfl rfl rfl rfl (hp.2 _ _ rfl)
                  | _ => exact .goes rfl rfl (.inl rfl) (hp.2 _ _ rfl)
              | server =>
                  refine .goes ?_ ?_ (.inl ?_) (hp.2 res _ ?_)
                  · cases side <;> cases res <;> rfl
                  · cases res with
                    | ok bs =>
                        cases side with
                        | req =>
                            show (l.cl.logForward bs).out = l.cl.hist.out
                            unfold Client.logForward
                            dsimp only
                            split <;> rfl
                        | rsp => rfl
                    | _ => rfl
                  · cases res <;> rfl
                  · cases res <;> rfl
      | close r =>
          have htx : (l.connClose (r.ix srv)).cl.tx = l.cl.tx := by simp [Client.tx]
          refine .goes ?_ (by simp) (.inl htx) (hp.2 () _ (congrArg (Tally.mk · n) htx))
          cases side <;> simp [Client.wait]
      | mark a =>
          cases side with
          | req => exact .goes rfl rfl (.inl rfl) (hp.2 _ _ rfl)
          | rsp => exact .goes rfl rfl (.inl rfl) (hp.2 _ _ rfl)
      | log size => exact .goes rfl rfl (.inl rfl) (hp.2 _ _ rfl)

/-- It leaves the wait of the other coroutine alone. -/
theorem IoCase.rspWait_req (h : IoCase l .req srv p l' p') : l'.cl.rspWait = l.cl.rspWait := by
  cases h with
  | yield r d k hfreed => simp
  | act hfreed hact =>
      cases hact with
      | sys r q res hok => cases q <;> cases res <;> rfl
      | close r => simp
      | _ => rfl
  | _ => rfl

/-- The programs of the request coroutine keep the count. -/
theorem Begins.keeps {k : ReqK α} (h : Begins k p)
    (hsrv : ∀ i, (ReqPc.io k p).server = some i → i ≠ 0) : Keeps k.srv false p := by
  have hclient {srv : ConnIx} : Role.client = .server → srv ≠ 0 := client_ne_server
  cases h with
  | fetch => exact keeps_netFetchHttp hclient _
  | badRequest req => exact keeps_netBadRequest
  | badGateway j server => exact keeps_netBadGateway
  | forward j s head => exact keeps_connWrite (fun _ => hsrv s rfl) _
  | body j s data => exact keeps_netTransferBody (fun _ => hsrv s rfl) hclient _
  | ok200 j s => exact .bind (keeps_mark _) fun _ => keeps_connWrite hclient _
  | tunnel j s => exact keeps_netTunnel (fun _ => hsrv s rfl) hclient

-- ============================================================================
-- The invariant
-- ============================================================================

/-- The count of a client.  A coroutine that runs has sent `n` bytes of what it will find counted
    at its next wait; while a response is relayed these are the bytes of the response. -/
structure Tallied (cl : Client) : Prop where
  range : ∃ n : Nat, cl.tx = toInt32 n
  reqRuns : ∀ (α : Type) (k : ReqK α) (p : Io α), cl.req = .io k p → cl.reqWait = none →
    ∃ n, Meets k.srv false p ⟨cl.tx, n⟩ ∧
      (cl.relaysHttp = true → cl.rspWait ≠ none → n = cl.relayed)
  reqWaits : ∀ (α : Type) (k : ReqK α) (p : Io α), cl.req = .io k p → cl.reqWait ≠ none →
    ∀ ret t, t.Exact → Meets k.srv false (ioResume ret p) t
  rspRuns : ∀ h e p, cl.rsp = .serve h e p → cl.rspWait = none →
    ∃ n, Meets e.server cl.relaysHttp p ⟨cl.tx, n⟩ ∧ (cl.relaysHttp = true → n = cl.relayed)
  rspWaits : ∀ h e p, cl.rsp = .serve h e p → cl.rspWait ≠ none →
    (∀ ret t, t.Exact → Meets e.server cl.relaysHttp (ioResume ret p) t) ∧
      (cl.relaysHttp = true → cl.tx = toInt32 cl.relayed)

/-- At most one coroutine of the client runs. -/
def Client.OneRuns (cl : Client) : Prop := cl.peer.Parked .req ∨ cl.peer.Parked .rsp

/-- What the invariant rests on. -/
structure Relaying (cl : Client) : Prop where
  fifo : Fifo cl
  inRange : InRange cl
  labelled : Labelled cl
  oneRuns : cl.OneRuns

theorem relaysHttp_serve (h : cl.relaysHttp = true) : ∃ n e p, cl.rsp = .serve n e p := by
  unfold Client.relaysHttp at h
  split at h
  · exact ⟨_, _, _, ‹_›⟩
  · exact absurd h (by simp)

/-- A parked coroutine that is inside an I/O call waits. -/
theorem parked_io (h : cl.peer.Parked .req) {k : ReqK α} (hreq : cl.req = .io k p) :
    cl.reqWait ≠ none := by
  have hpark : cl.peer.ReqParked := h
  have hpos : cl.peer.req = .work := by
    show cl.req.pos = .work
    rw [hreq]
    rfl
  rw [Peer.ReqParked, hpos] at hpark
  obtain ⟨fd, d, hsome⟩ := hpark
  have hsome' : cl.reqWait = some (.io fd d) := hsome
  rw [hsome']
  simp

theorem parked_serve (h : cl.peer.Parked .rsp) {n : Nat} {e : Entry} {p : Io Int}
    (hrsp : cl.rsp = .serve n e p) : cl.rspWait ≠ none := by
  have hpark : cl.peer.RspParked := h
  have hpos : cl.peer.rsp = .serve := by
    show cl.rsp.pos = .serve
    rw [hrsp]
    rfl
  rw [Peer.RspParked, hpos] at hpark
  obtain ⟨fd, d, hsome⟩ := hpark
  have hsome' : cl.rspWait = some (.io fd d) := hsome
  rw [hsome']
  simp

/-- A coroutine that is parked and waits for nothing has returned. -/
theorem reqParked_finished {p : Peer} (h : p.ReqParked) (hwait : p.reqWait = none) :
    p.req = .finished := by
  cases hreq : p.req with
  | finished => rfl
  | _ => simp [Peer.ReqParked, hreq, hwait] at h

theorem rspParked_finished {p : Peer} (h : p.RspParked) (hwait : p.rspWait = none) :
    p.rsp = .finished := by
  cases hrsp : p.rsp with
  | finished => rfl
  | _ => simp [Peer.RspParked, hrsp, hwait] at h

/-- While the request coroutine runs, a response handler waits. -/
theorem rsp_waits (h : cl.OneRuns) (hwait : cl.reqWait = none) (hlive : cl.req.pos ≠ .finished)
    {n : Nat} {e : Entry} {p : Io Int} (hrsp : cl.rsp = .serve n e p) : cl.rspWait ≠ none := by
  rcases h with hparked | hparked
  · exact absurd (reqParked_finished hparked hwait) hlive
  · exact parked_serve hparked hrsp

/-- While the response coroutine runs, an I/O call of the other one waits. -/
theorem req_waits (h : cl.OneRuns) (hwait : cl.rspWait = none) (hlive : cl.rsp.pos ≠ .finished)
    {k : ReqK α} (hreq : cl.req = .io k p) : cl.reqWait ≠ none := by
  rcases h with hparked | hparked
  · exact parked_io hparked hreq
  · exact absurd (rspParked_finished hparked hwait) hlive

-- ============================================================================
-- The request coroutine
-- ============================================================================

theorem relaysHttp_of_serve {n : Nat} {e : Entry} {p : Io Int} (hrsp : cl.rsp = .serve n e p) :
    cl.relaysHttp = decide (netGetHandler ((cl.mem.head e.req).2.str 0) = some .http) := by
  unfold Client.relaysHttp
  rw [hrsp]
  rfl

/-- What is relayed does not depend on how far the handler is. -/
theorem relaysHttp_congr (hrsp : ∀ n e p, cl'.rsp = .serve n e p →
    (∃ p₀, cl.rsp = .serve n e p₀) ∧ cl'.mem.head e.req = cl.mem.head e.req)
    (h : cl'.relaysHttp = true) : cl.relaysHttp = true := by
  obtain ⟨n, e, p, hserve⟩ := relaysHttp_serve h
  obtain ⟨⟨p₀, hserve₀⟩, hhead⟩ := hrsp n e p hserve
  rw [relaysHttp_of_serve hserve, hhead, ← relaysHttp_of_serve hserve₀] at h
  exact h

theorem relayed_congr (hout : cl'.hist.out = cl.hist.out) (hcall : cl'.hist.call = cl.hist.call)
    (hno : cl'.rspNo = cl.rspNo) : cl'.relayed = cl.relayed := by
  unfold Client.relayed History.relayed
  rw [hout, hcall, hno]

/-- A step of the request coroutine that neither writes to the client nor changes its count. -/
theorem Tallied.reqMove (h : Tallied cl) (hrsp : cl'.rsp = cl.rsp)
    (hrspWait : cl'.rspWait = cl.rspWait)
    (hparked : ∀ n e p, cl.rsp = .serve n e p → cl.rspWait ≠ none)
    (hrelays : cl'.relaysHttp = cl.relaysHttp)
    (hrange : ∃ n : Nat, cl'.tx = toInt32 n)
    (htx : cl.relaysHttp = true → cl'.tx = cl.tx ∧ cl'.relayed = cl.relayed)
    (hruns : ∀ (α : Type) (k : ReqK α) (p : Io α), cl'.req = .io k p → cl'.reqWait = none →
      ∃ n, Meets k.srv false p ⟨cl'.tx, n⟩ ∧ (cl.relaysHttp = true → n = cl.relayed))
    (hwaits : ∀ (α : Type) (k : ReqK α) (p : Io α), cl'.req = .io k p → cl'.reqWait ≠ none →
      ∀ ret t, t.Exact → Meets k.srv false (ioResume ret p) t) : Tallied cl' := by
  refine ⟨hrange, ?_, hwaits, ?_, ?_⟩
  · intro α k p hreq hwait
    obtain ⟨n, hmeets, hn⟩ := hruns α k p hreq hwait
    refine ⟨n, hmeets, fun hhttp _ => ?_⟩
    rw [hrelays] at hhttp
    rw [(htx hhttp).2]
    exact hn hhttp
  · intro n e p hserve hwait
    rw [hrsp] at hserve
    rw [hrspWait] at hwait
    exact absurd hwait (hparked n e p hserve)
  · intro n e p hserve hwait
    rw [hrsp] at hserve
    rw [hrspWait] at hwait
    obtain ⟨hmeets, hexact⟩ := h.rspWaits n e p hserve hwait
    rw [hrelays]
    refine ⟨hmeets, fun hhttp => ?_⟩
    rw [(htx hhttp).1, (htx hhttp).2]
    exact hexact hhttp

theorem tallied_reqStep (hJ : Relaying l.cl) (hok : (l.cl.relaysHttp && l.cl.reqSends) = false)
    (hwait : l.cl.reqWait = none) (h : Tallied l.cl) (hs : ReqCase l l') : Tallied l'.cl := by
  have hrsp := hs.rsp_eq
  have hparked (n : Nat) (e : Entry) (p : Io Int) (hserve : l.cl.rsp = .serve n e p) :
      l.cl.rspWait ≠ none := rsp_waits hJ.oneRuns hwait hs.live hserve
  have hexact (hhttp : l.cl.relaysHttp = true) : l.cl.tx = toInt32 l.cl.relayed := by
    obtain ⟨n, e, p, hserve⟩ := relaysHttp_serve hhttp
    exact (h.rspWaits n e p hserve (hparked n e p hserve)).2 hhttp
  have hno : l'.cl.rspNo = l.cl.rspNo := by
    unfold Client.rspNo
    rw [hrsp]
  have hrelays (hheads : ∀ j < l.cl.mem.nreq, l'.cl.mem.head j = l.cl.mem.head j) :
      l'.cl.relaysHttp = l.cl.relaysHttp := by
    have hheads' (n : Nat) (e : Entry) (p : Io Int) (hserve : l.cl.rsp = .serve n e p) :
        l'.cl.mem.head e.req = l.cl.mem.head e.req := by
      exact hheads e.req (hJ.inRange.queued e (hJ.fifo.served_mem hserve hs.live)).2
    rw [Bool.eq_iff_iff]
    constructor
    · refine relaysHttp_congr fun n e p hserve => ?_
      rw [hrsp] at hserve
      exact ⟨⟨p, hserve⟩, hheads' n e p hserve⟩
    · refine relaysHttp_congr fun n e p hserve => ?_
      exact ⟨⟨p, hrsp.trans hserve⟩, (hheads' n e p hserve).symm⟩
  have hin := inRange_reqStep hJ.fifo hJ.inRange hs
  rcases hs.io_or_quiet hJ.inRange with ⟨α, k, p, p', l₁, hreq, hio, rfl⟩ | hquiet
  · obtain ⟨n, hmeets, hn⟩ := h.reqRuns α k p hreq hwait
    have hn' (hhttp : l.cl.relaysHttp = true) : n = l.cl.relayed := by
      obtain ⟨m, e, q, hserve⟩ := relaysHttp_serve hhttp
      exact hn hhttp (hparked m e q hserve)
    have hcall : l₁.cl.hist.call = l.cl.hist.call := hio.said_req.2.1
    have hrelays := hrelays fun j _ => congrFun hio.sameReqs.1.1.2 j
    cases hio.tally hmeets with
    | goes hsame hout htx hmeets' =>
        refine h.reqMove hrsp hio.rspWait_req hparked hrelays ?_ (fun hhttp => ⟨?_, ?_⟩) ?_ ?_
        · rcases htx with heq | heq
          · obtain ⟨m, hm⟩ := h.range
            exact ⟨m, heq.trans hm⟩
          · exact ⟨n, heq⟩
        · rcases htx with heq | heq
          · exact heq
          · show l₁.cl.tx = l.cl.tx
            rw [heq, hn' hhttp, hexact hhttp]
        · exact relayed_congr hout hcall hno
        · intro α' k' q hreq' _
          cases hreq'
          exact ⟨n, hmeets', hn'⟩
        · intro α' k' q hreq' hne
          exact absurd (hsame.trans hwait) hne
    | @sends data bs k₀ hp hsame hhist htx hmeets' =>
        have hhttp : l.cl.relaysHttp = false := by
          have hsends : l.cl.reqSends = true := by
            rw [Client.reqSends, hreq, hp]
          rwa [hsends, Bool.and_true] at hok
        refine h.reqMove hrsp hio.rspWait_req hparked hrelays ?_ ?_ ?_ ?_
        · obtain ⟨m, hm⟩ := h.range
          exact ⟨m, htx.trans hm⟩
        · exact fun hhttp' => absurd (hhttp.symm.trans hhttp') (by simp)
        · intro α' k' q hreq' _
          cases hreq'
          exact ⟨_, hmeets', fun hhttp' => absurd (hhttp.symm.trans hhttp') (by simp)⟩
        · intro α' k' q hreq' hne
          exact absurd (hsame.trans hwait) hne
    | waits hne hout htx hcount hmeets' =>
        refine h.reqMove hrsp hio.rspWait_req hparked hrelays ?_ (fun hhttp => ⟨htx, ?_⟩) ?_ ?_
        · exact ⟨n, htx.trans hcount⟩
        · exact relayed_congr hout hcall hno
        · intro α' k' q hreq' hnone
          exact absurd hnone hne
        · intro α' k' q hreq' _
          cases hreq'
          exact hmeets'
  · have htx : l'.cl.tx = l.cl.tx := congrArg IoBuf.tx hquiet.io
    refine h.reqMove hrsp hquiet.rspWait hparked (hrelays hquiet.heads) ?_
      (fun _ => ⟨htx, ?_⟩) ?_ ?_
    · obtain ⟨m, hm⟩ := h.range
      exact ⟨m, htx.trans hm⟩
    · exact relayed_congr hquiet.out hquiet.call hno
    · intro α k p hreq _
      obtain ⟨hbegins, -⟩ := hquiet.begins α k p hreq
      have hkeeps := hbegins.keeps fun i hi => Nat.ne_of_gt (hin.server i (hreq ▸ hi)).1
      rw [htx]
      by_cases hhttp : l.cl.relaysHttp = true
      · exact ⟨_, hkeeps ⟨_, _⟩ (hexact hhttp), fun _ => rfl⟩
      · obtain ⟨m, hm⟩ := h.range
        exact ⟨m, hkeeps ⟨_, _⟩ hm, fun hhttp' => absurd hhttp' hhttp⟩
    · intro α k p hreq hne
      exact absurd ((hquiet.begins α k p hreq).2.trans hwait) hne

-- ============================================================================
-- The response coroutine
-- ============================================================================

/-- What a response handler sends is relayed. -/
theorem relayed_send {n : Nat} {e : Entry} {p p' : Io Int} {bs : Bytes}
    (hrsp : cl.rsp = .serve n e p) (hrsp' : cl'.rsp = .serve n e p')
    (hhist : cl'.hist = cl.logSend .rsp .client bs) : cl'.relayed = cl.relayed + bs.length := by
  unfold Client.relayed History.relayed Client.rspNo
  rw [hhist, hrsp', hrsp]
  simp [Client.logSend, Client.rspNo, hrsp, Chunk.isOf]

/-- A response coroutine that leaves its handler, or is in none. -/
theorem Tallied.rspIdle (h : Tallied cl) (hreq : cl'.req = cl.req) (htx : cl'.tx = cl.tx)
    (hreqWait : cl'.reqWait = cl.reqWait)
    (hbusy : ∀ (α : Type) (k : ReqK α) (p : Io α), cl.req = .io k p → cl.reqWait ≠ none)
    (hrsp : cl'.rsp.serves = false) : Tallied cl' := by
  have hidle {n : Nat} {e : Entry} {p : Io Int} (hserve : cl'.rsp = .serve n e p) : False := by
    rw [hserve] at hrsp
    exact absurd hrsp (by simp [RspPc.serves])
  refine ⟨?_, ?_, ?_, fun n e p hserve => (hidle hserve).elim,
    fun n e p hserve => (hidle hserve).elim⟩
  · rw [htx]
    exact h.range
  · intro α k p hio hwait
    exact absurd (hreqWait.symm.trans hwait) (hbusy α k p (hreq.symm.trans hio))
  · rw [hreq, hreqWait]
    exact h.reqWaits

theorem tallied_rspStep (hJ : Relaying l.cl) (hwait : l.cl.rspWait = none) (h : Tallied l.cl)
    (hs : RspCase l l') : Tallied l'.cl := by
  have hreq := hs.req_eq
  have hreqWait := hs.sameForwards.2.2
  have hfifo := fifo_rspStep hJ.fifo hs
  have hin := inRange_rspStep hJ.fifo hJ.inRange hs
  have hbusy (hlive : l.cl.rsp.pos ≠ .finished) (α : Type) (k : ReqK α) (p : Io α)
      (hio : l.cl.req = .io k p) : l.cl.reqWait ≠ none := req_waits hJ.oneRuns hwait hlive hio
  have hidle {pc : RspPc} (hrsp : l.cl.rsp = pc) (hpc : pc.pos ≠ .finished)
      (htx : l'.cl.tx = l.cl.tx) (hrsp' : l'.cl.rsp.serves = false) : Tallied l'.cl :=
    h.rspIdle hreq htx hreqWait (hbusy (hrsp ▸ hpc)) hrsp'
  cases hs with
  | stuck f => exact h
  | leave hdead hrsp => exact hidle hrsp (by simp [RspPc.pos]) rfl rfl
  | sleep hdead hrsp hhead => exact hidle hrsp (by simp [RspPc.pos]) rfl rfl
  | evict hdead hrsp hcnt hstat hfind =>
      exact hidle hrsp (by simp [RspPc.pos]) (by simp [Client.tx, Local.rspPop]) rfl
  | again hdead hrsp hstat => exact hidle hrsp (by simp [RspPc.pos]) rfl rfl
  | pop hdead hrsp hcnt hstat =>
      exact hidle hrsp (by simp [RspPc.pos]) (by simp [Client.tx, Local.rspPop]) rfl
  | exit hdead hrsp =>
      have hexit : l.rspExit.cl.tx = l.cl.tx ∧ l.rspExit.cl.rsp.serves = false := by
        unfold Local.rspExit
        dsimp only
        split <;> simp [Client.tx, Local.leave, RspPc.serves]
      exact hidle hrsp (by simp [RspPc.pos]) hexit.1 hexit.2
  | @serve m n kind heap hdead hrsp hhead hn hcnt hkind =>
      have hlive : l.cl.req.pos ≠ .finished := live_of_cxtDead hdead
      have hserve : (l.setRspPc (.serve m n.val (rspHandler heap kind))).cl.rsp =
          .serve m n.val (rspHandler heap kind) := rfl
      have hsrv : n.val.server ≠ 0 :=
        Nat.ne_of_gt (hin.queued n.val (hfifo.served_mem hserve hlive)).1.1
      have hzero : l.cl.hist.relayed n.val.no l.cl.hist.call = 0 :=
        hJ.labelled.relayed_serve (hfifo.served_appended hserve hlive) (by rw [hrsp]; rfl)
      have hrelays : (l.setRspPc (.serve m n.val (rspHandler heap kind))).cl.relaysHttp =
          decide (kind = .http) := by
        rw [relaysHttp_of_serve hserve]
        show decide (netGetHandler (l.reqStr n.val.req 0) = some .http) = _
        rw [hkind]
        simp
      refine ⟨h.range, ?_, h.reqWaits, ?_, fun n' e p _ hne => absurd hwait hne⟩
      · intro α k p hio hnone
        exact absurd hnone (hbusy (by rw [hrsp]; simp [RspPc.pos]) α k p hio)
      · intro n' e p hserve' _
        rw [hserve, RspPc.serve.injEq] at hserve'
        obtain ⟨-, rfl, rfl⟩ := hserve'
        rw [hrelays]
        cases kind with
        | http =>
            refine ⟨0, netHttpRspHandler_tally hsrv heap rfl, fun _ => hzero.symm⟩
        | connect =>
            obtain ⟨k, hk⟩ := h.range
            exact ⟨k, keeps_netConnectRspHandler hsrv ⟨_, _⟩ hk,
              fun hhttp => absurd hhttp (by simp)⟩
  | @io n e p p' l₁ hdead hrsp hio =>
      obtain ⟨m, hmeets, hm⟩ := h.rspRuns n e p hrsp hwait
      have hserve : (l₁.setRspPc (.serve n e p')).cl.rsp = .serve n e p' := rfl
      have hrelays : (l₁.setRspPc (.serve n e p')).cl.relaysHttp = l.cl.relaysHttp := by
        rw [relaysHttp_of_serve hserve, relaysHttp_of_serve hrsp]
        exact congrArg (fun f => decide (netGetHandler ((f e.req).2.str 0) = some .http))
          hio.sameReqs.1.1.2
      have hcall : l₁.cl.hist.call = l.cl.hist.call := hio.said_rsp.2.1
      have hrelayed (hout : l₁.cl.hist.out = l.cl.hist.out) :
          (l₁.setRspPc (.serve n e p')).cl.relayed = l.cl.relayed := by
        refine relayed_congr hout hcall ?_
        unfold Client.rspNo
        rw [hrsp]
        rfl
      -- the other coroutine waits
      have hgo (hrange : ∃ k : Nat, l₁.cl.tx = toInt32 k)
          (hruns : l₁.cl.rspWait = none → ∃ k, Meets e.server l.cl.relaysHttp p' ⟨l₁.cl.tx, k⟩ ∧
            (l.cl.relaysHttp = true → k = (l₁.setRspPc (.serve n e p')).cl.relayed))
          (hwaits : l₁.cl.rspWait ≠ none →
            (∀ ret t, t.Exact → Meets e.server l.cl.relaysHttp (ioResume ret p') t) ∧
              (l.cl.relaysHttp = true →
                l₁.cl.tx = toInt32 (l₁.setRspPc (.serve n e p')).cl.relayed)) :
          Tallied (l₁.setRspPc (.serve n e p')).cl := by
        refine ⟨hrange, ?_, ?_, ?_, ?_⟩
        · intro α k q hq hnone
          exact absurd (hreqWait.symm.trans hnone)
            (hbusy (by rw [hrsp]; simp [RspPc.pos]) α k q (hreq.symm.trans hq))
        · rw [hreq, hreqWait]
          exact h.reqWaits
        · intro n' e' q hserve' hnone
          rw [hserve, RspPc.serve.injEq] at hserve'
          obtain ⟨rfl, rfl, rfl⟩ := hserve'
          rw [hrelays]
          exact hruns hnone
        · intro n' e' q hserve' hne
          rw [hserve, RspPc.serve.injEq] at hserve'
          obtain ⟨rfl, rfl, rfl⟩ := hserve'
          rw [hrelays]
          exact hwaits hne
      obtain ⟨k, hk⟩ := h.range
      cases hio.tally hmeets with
      | goes hsame hout htx hmeets' =>
          refine hgo ?_ (fun _ => ⟨m, hmeets', fun hhttp => ?_⟩) fun hne => ?_
          · rcases htx with heq | heq
            · exact ⟨k, heq.trans hk⟩
            · exact ⟨m, heq⟩
          · rw [hrelayed hout]
            exact hm hhttp
          · exact absurd (hsame.trans hwait) hne
      | @sends data bs k₀ hp hsame hhist htx hmeets' =>
          refine hgo ⟨k, htx.trans hk⟩ (fun _ => ⟨_, hmeets', fun hhttp => ?_⟩) fun hne => ?_
          · rw [relayed_send hrsp hserve hhist, hm hhttp]
          · exact absurd (hsame.trans hwait) hne
      | waits hne hout htx hcount hmeets' =>
          refine hgo ⟨m, htx.trans hcount⟩ (fun hnone => absurd hnone hne) fun _ => ?_
          refine ⟨hmeets', fun hhttp => ?_⟩
          rw [hrelayed hout, htx, hcount, hm hhttp]

/-- An I/O call that is resumed goes on with what the wait returns. -/
theorem resumeReq_io {ret : Int} {k : ReqK α} {q : Io α} (h : (cl.resumeReq ret).req = .io k q) :
    ∃ p, cl.req = .io k p ∧ q = ioResume ret p := by
  unfold Client.resumeReq at h
  dsimp only at h
  split at h
  · exact absurd h (by simp)
  · cases h
    exact ⟨_, ‹_›, rfl⟩
  · exact absurd h (by simp)
  · exact absurd h (by simp)
  · exact absurd h (by simp)
  · rename_i hne _ _ _
    exact absurd h (hne _ _ _)

theorem resumeRsp_serve {ret : Int} {m : Nat} {e : Entry} {q : Io Int}
    (h : (cl.resumeRsp ret).rsp = .serve m e q) :
    ∃ p, cl.rsp = .serve m e p ∧ q = ioResume ret p := by
  unfold Client.resumeRsp at h
  dsimp only at h
  split at h
  · exact absurd h (by simp)
  · dsimp only at h
    split at h <;> exact absurd h (by simp)
  · rename_i hserve
    rw [RspPc.serve.injEq] at h
    obtain ⟨rfl, rfl, rfl⟩ := h
    exact ⟨_, hserve, rfl⟩
  · rename_i hne
    exact absurd h (hne _ _ _)

theorem tallied_resume (hpark : cl.peer.Parked side) (h : Tallied cl) (ret : Int) :
    Tallied (cl.resume side ret) := by
  obtain ⟨m, hm⟩ := h.range
  cases side with
  | req =>
      show Tallied (cl.resumeReq ret)
      have hsame : (cl.resumeReq ret).rsp = cl.rsp ∧ (cl.resumeReq ret).rspWait = cl.rspWait ∧
          (cl.resumeReq ret).mem = cl.mem ∧ (cl.resumeReq ret).hist = cl.hist ∧
          (cl.resumeReq ret).reqWait = none := by
        unfold Client.resumeReq
        dsimp only
        split <;> exact ⟨rfl, rfl, rfl, rfl, rfl⟩
      obtain ⟨hrsp, hrspWait, hmem, hhist, hreqWait⟩ := hsame
      have htx : (cl.resumeReq ret).tx = cl.tx := by rw [Client.tx, hmem, Client.tx]
      have hrelays : (cl.resumeReq ret).relaysHttp = cl.relaysHttp := by
        unfold Client.relaysHttp
        rw [hrsp, hmem]
      have hrelayed : (cl.resumeReq ret).relayed = cl.relayed := by
        unfold Client.relayed Client.rspNo
        rw [hrsp, hhist]
      refine ⟨⟨m, htx.trans hm⟩, ?_, fun α k p _ hne => absurd hreqWait hne, ?_, ?_⟩
      · intro α k q hq _
        obtain ⟨p, hreq, rfl⟩ := resumeReq_io hq
        have hmeets := h.reqWaits α k p hreq (parked_io hpark hreq) ret
        rw [htx, hrelays, hrspWait, hrelayed]
        by_cases hhttp : cl.relaysHttp = true ∧ cl.rspWait ≠ none
        · obtain ⟨n, e, p₀, hserve⟩ := relaysHttp_serve hhttp.1
          have hexact := (h.rspWaits n e p₀ hserve hhttp.2).2 hhttp.1
          exact ⟨_, hmeets ⟨_, _⟩ hexact, fun _ _ => rfl⟩
        · exact ⟨m, hmeets ⟨_, _⟩ hm, fun hhttp' hne => absurd ⟨hhttp', hne⟩ hhttp⟩
      · rw [hrsp, hrspWait, hrelays, htx, hrelayed]
        exact h.rspRuns
      · rw [hrsp, hrspWait, hrelays, htx, hrelayed]
        exact h.rspWaits
  | rsp =>
      show Tallied (cl.resumeRsp ret)
      have hsame : (cl.resumeRsp ret).req = cl.req ∧ (cl.resumeRsp ret).reqWait = cl.reqWait ∧
          (cl.resumeRsp ret).mem = cl.mem ∧ (cl.resumeRsp ret).hist = cl.hist ∧
          (cl.resumeRsp ret).rspWait = none := by
        unfold Client.resumeRsp
        dsimp only
        split <;> exact ⟨rfl, rfl, rfl, rfl, rfl⟩
      obtain ⟨hreq, hreqWait, hmem, hhist, hrspWait⟩ := hsame
      have htx : (cl.resumeRsp ret).tx = cl.tx := by rw [Client.tx, hmem, Client.tx]
      refine ⟨⟨m, htx.trans hm⟩, ?_, ?_, ?_, fun n e p _ hne => absurd hrspWait hne⟩
      · intro α k p hio hnone
        rw [hreq] at hio
        rw [hreqWait] at hnone
        obtain ⟨n, hmeets, -⟩ := h.reqRuns α k p hio hnone
        rw [htx]
        exact ⟨n, hmeets, fun _ hne => absurd hrspWait hne⟩
      · rw [hreq, hreqWait]
        exact h.reqWaits
      · intro n e q hq _
        obtain ⟨p, hserve, rfl⟩ := resumeRsp_serve hq
        obtain ⟨hmeets, hexact⟩ := h.rspWaits n e p hserve (parked_serve hpark hserve)
        have hrelays : (cl.resumeRsp ret).relaysHttp = cl.relaysHttp := by
          rw [relaysHttp_of_serve hq, relaysHttp_of_serve hserve, hmem]
        have hrelayed : (cl.resumeRsp ret).relayed = cl.relayed := by
          unfold Client.relayed Client.rspNo
          rw [hq, hserve, hhist]
        rw [htx, hrelays, hrelayed]
        by_cases hhttp : cl.relaysHttp = true
        · exact ⟨_, hmeets ret ⟨_, _⟩ (hexact hhttp), fun _ => rfl⟩
        · exact ⟨m, hmeets ret ⟨_, _⟩ hm, fun hhttp' => absurd hhttp' hhttp⟩

theorem tallied_connErr (h : Tallied cl) (i : ConnIx) : Tallied (cl.connErr i) := by
  have htx : (cl.connErr i).tx = cl.tx :=
    congrArg IoBuf.tx (Mem.setConn_clientIo _ i (fun k => { k with stat := .closed }) rfl)
  refine ⟨?_, ?_, h.reqWaits, ?_, ?_⟩
  · rw [htx]
    exact h.range
  · rw [htx]
    exact h.reqRuns
  · rw [htx]
    exact h.rspRuns
  · rw [htx]
    exact h.rspWaits

theorem tallied_new (sh : Shared) {conn : Conn} (hio : conn.io = ioBufInit) :
    Tallied (World.newClient sh conn) := by
  refine ⟨⟨0, ?_⟩, fun α k p hreq => ?_, fun α k p hreq => ?_, fun n e p hrsp => ?_,
    fun n e p hrsp => ?_⟩
  · show conn.io.tx = toInt32 0
    rw [hio]
    rfl
  all_goals exact absurd ‹_› (by simp [World.newClient])

end

theorem tallied_invariant : ClientInvariant Local.logOk Relaying Tallied where
  new := fun sh _ _ hio => tallied_new sh hio
  req := fun _ _ _ hok hwait hJ h hs => tallied_reqStep hJ ((Bool.not_eq_true' _).mp hok) hwait h hs
  rsp := fun _ _ _ _ hwait hJ h hs => tallied_rspStep hJ hwait h hs
  resume := fun _ _ ret hpark _ h => tallied_resume hpark h ret
  err := fun _ i _ _ h => tallied_connErr h i

-- ============================================================================
-- What is logged
-- ============================================================================

/-- The size the response coroutine is about to pass to `log_http_req`. -/
def Client.toLog (cl : Client) : Option Int :=
  match cl.rsp with
  | .serve _ _ (.call (.log size) _) => some size
  | _ => none

/-- `size` is about to be logged for a response of which the client has received `relayed` bytes. -/
def World.Logs (w : World) (size : Int) (relayed : Nat) : Prop :=
  ∃ c cl, w.clients c = some cl ∧ cl.toLog = some size ∧ cl.relayed = relayed

theorem toLog_serve {cl : Client} {size : Int} (h : cl.toLog = some size) :
    ∃ n e k, cl.rsp = .serve n e (.call (.log size) k) := by
  unfold Client.toLog at h
  split at h
  · rename_i hrsp
    rw [Option.some.injEq] at h
    exact ⟨_, _, _, h ▸ hrsp⟩
  · exact absurd h (by simp)

theorem World.relaying {ok : World → Choice → Prop} {w : World} (h : Run World.step ok World.init w)
    {c : ClientId} {cl : Client} (hcl : w.clients c = some cl) : Relaying cl := by
  refine ⟨fifo h hcl, inRange h hcl, labelled h hcl, ?_⟩
  have hpeer : w.notify.peers c = some cl.peer := by simp [World.notify, hcl]
  have hpark := (parkOk h).parked
  by_cases hrun : w.notify.hub.running = some ⟨c, .req⟩
  · exact .inr (hpark ⟨c, .rsp⟩ cl.peer (by rw [hrun]; simp) hpeer)
  · exact .inl (hpark ⟨c, .req⟩ cl.peer hrun hpeer)

theorem toInt32_eq_self_iff (n : Nat) : toInt32 n = n ↔ n < 2 ^ 31 := by
  constructor
  · intro h
    rw [toInt32_eq] at h
    split at h <;> omega
  · intro h
    exact toInt32_of_lt (by omega) (by omega)

/-- As long as the request coroutine does not write to the client while a response is relayed, the
    size that is logged is that of the response, unless an `int` does not hold it. -/
theorem logged_relayed {w : World} {size : Int} {relayed : Nat}
    (h : Run World.step (fun w ch => w.coOk Local.logOk ch = true) World.init w)
    (hlogs : w.Logs size relayed) : size = relayed ↔ relayed < 2 ^ 31 := by
  obtain ⟨c, cl, hcl, hlog, rfl⟩ := hlogs
  obtain ⟨n, e, k, hrsp⟩ := toLog_serve hlog
  have htallied : Tallied cl :=
    World.client_invariant tallied_invariant (fun _ _ hok => hok)
      (fun _ hr _ _ hcl => World.relaying hr hcl) h hcl
  have hsize : size = toInt32 cl.relayed := by
    by_cases hwait : cl.rspWait = none
    · obtain ⟨m, hmeets, hm⟩ := htallied.rspRuns n e _ hrsp hwait
      obtain ⟨hhttp, hsize⟩ := hmeets.1
      rw [hm hhttp] at hsize
      exact hsize
    · have hexact : Tally.Exact ⟨toInt32 cl.relayed, cl.relayed⟩ := by
        unfold Tally.Exact
        dsimp only
      have hmeets := (htallied.rspWaits n e _ hrsp hwait).1 0 _ hexact
      exact hmeets.1.2
  rw [hsize]
  exact toInt32_eq_self_iff cl.relayed

theorem logs_of_any {w : World} {size : Int} {relayed : Nat}
    (h : ((w.clients 0).any fun cl => cl.toLog = some size && cl.relayed = relayed) = true) :
    w.Logs size relayed := by
  obtain ⟨cl, hcl, hp⟩ := (Option.any_eq_true _ _).mp h
  rw [Bool.and_eq_true, decide_eq_true_eq, decide_eq_true_eq] at hp
  exact ⟨0, cl, hcl, hp⟩

/-- The answer to the only request is logged with its size. -/
theorem oneResponse_logged : ∃ w : World,
    Run World.step (fun w ch => w.coOk Local.logOk ch = true) World.init w ∧
      w.Logs 27 27 ∧ ((27 : Int) = (27 : Nat) ↔ 27 < 2 ^ 31) := by
  have hd :
    (World.driveInit (fun w ch => w.coOk Local.logOk ch) 243 (oneRequest ++ oneResponse)).any
      (fun w => (w.clients 0).any fun cl => cl.toLog = some 27 && cl.relayed = 27) = true := by
    decide +kernel
  obtain ⟨w, hr, hp⟩ := exists_run_of_drive hd
  have hlogs : w.Logs 27 27 := logs_of_any hp
  exact ⟨w, hr, hlogs, logged_relayed hr hlogs⟩

/-- While the first response is awaited, the server of the second request refuses the connection:
    the 48 bytes of that answer are logged with the 27 of the response. -/
theorem wrong_size_reachable :
    ∃ (w : World) (size : Int) (relayed : Nat),
      w.Reachable ∧ w.Logs size relayed ∧ size ≠ relayed := by
  have hd : (World.driveInit (fun _ _ => true) 355
      (oneRequest ++ refusedRequest ++ oneResponse.tail)).any (fun w =>
        (w.clients 0).any fun cl => cl.toLog = some 75 && cl.relayed = 27) = true := by
    decide +kernel
  obtain ⟨w, hr, hp⟩ := World.reachable_of_drive hd
  exact ⟨w, 75, 27, hr, logs_of_any hp, by decide⟩

end HttpProxy
