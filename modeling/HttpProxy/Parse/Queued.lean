/-
  HttpProxy.Parse.Queued

  As long as a request is in the list of its client, its buffer is the one
  net_parse_req left when the request was accepted, so net_rsp_handler finds the
  handlers net_req_handler has called (`handlers_agree`).

  What a request coroutine holds or has appended was parsed from a head that was
  fetched (`Kept`); `ReqKeeps` is what a step of the coroutine preserves of that.
-/

import HttpProxy.Parse.Agree
import HttpProxy.System.Heads
import HttpProxy.System.Client

namespace HttpProxy

open Lib

-- ============================================================================
-- Fetching
-- ============================================================================

/-- What `net_fetch_http` returns: with 0, no line at all or a head. -/
def FetchResult (x : Int × NetData) : Prop :=
  x.1 = 0 → (∃ heap, x.2 = netDataInit heap) ∨ ∃ line, Fetched line x.2

/-- `conn_gets` appends a line, and returns its length or -1. -/
theorem connGets_returns (r : Role) (lenLimit : Nat) (buf : Strbuf) :
    (connGets r lenLimit buf).Returns fun x =>
      ∃ line, x.2 = strbufCat buf line ∧ (x.1 = -1 ∨ x.1 = (line.length : Int)) := by
  refine Prog.Returns.loop
    (fun x : Int × Strbuf => ∃ line, x.2 = strbufCat buf line ∧ x.1 = (line.length : Int))
    ⟨[], rfl, rfl⟩ ?_
  rintro ⟨n, _⟩ ⟨line, rfl, rfl⟩
  dsimp only
  split
  · exact ⟨line, rfl, .inl rfl⟩
  · refine Prog.Returns.bind_any fun ch => ?_
    split
    · exact ⟨line, rfl, .inl rfl⟩
    · split
      · exact ⟨line, rfl, .inr rfl⟩
      · split
        · refine Prog.Returns.bind_any fun ch' => ?_
          split
          · exact ⟨line, rfl, .inl rfl⟩
          · split
            · exact ⟨line, rfl, .inr rfl⟩
            · exact Prog.Returns.bind_any fun _ => ⟨line, rfl, .inr rfl⟩
        · refine ⟨line ++ [intToChar ch], ?_, ?_⟩
          · rw [strbufCat_append]
            rfl
          · rw [List.length_append]
            rfl

/-- `net_fetch_headers` goes on with the head it has begun. -/
theorem netFetchHeaders_returns (r : Role) {line : Bytes} {data : NetData} (h : Fetched line data) :
    (netFetchHeaders r data).Returns FetchResult := by
  refine Prog.Returns.loop (Fetched line) h fun data hdata => ?_
  refine Prog.Returns.bind ((connGets_returns r _ data.buf).mono ?_)
  rintro ⟨ret, _⟩ ⟨hdr, rfl, hret⟩
  dsimp only at hret ⊢
  split
  · rename_i hle
    intro hzero
    have hzero' : ret = 0 := hzero
    have hnil : hdr = [] := List.length_eq_zero_iff.mp (by omega)
    rw [hnil]
    exact .inr ⟨line, hdata⟩
  · generalize hparse : netParseHeader { data with buf := strbufAppend (strbufCat data.buf hdr) 0 }
      data.buf.len = p
    obtain ⟨data₁, ret₁⟩ := p
    dsimp only
    split
    · intro hzero
      exact absurd (show (-1 : Int) = 0 from hzero) (by decide)
    · rename_i hret₁
      obtain rfl : ret₁ = 0 := Classical.not_not.mp hret₁
      exact .header hdata hparse

theorem netFetchHttp_returns (r : Role) (heap : Nat → Bytes) :
    (netFetchHttp r (netDataInit heap)).Returns FetchResult := by
  refine Prog.Returns.bind ((connGets_returns r _ (netDataInit heap).buf).mono ?_)
  rintro ⟨ret, _⟩ ⟨line, rfl, hret⟩
  dsimp only at hret ⊢
  split
  · rename_i hle
    intro hzero
    have hzero' : ret = 0 := hzero
    have hnil : line = [] := List.length_eq_zero_iff.mp (by omega)
    rw [hnil]
    exact .inl ⟨heap, rfl⟩
  · exact netFetchHeaders_returns r .start

-- ============================================================================
-- One client
-- ============================================================================

/-- The handlers and the buffer of a request that was dispatched: those of a head for which a
    handler was found and which was accepted. -/
def FromHead (h : HandlerKind × Strbuf) : Prop :=
  ∃ line data req entry, Fetched line data ∧ handlerEntry (data.buf.str 0) = some entry ∧
    netParseReq (netReqInit data) = (req, 0) ∧ entry.2 = h.1 ∧ req.data.buf = h.2

def Mem.Dispatched (m : Mem) (j : ReqIx) : Prop := j < m.nreq ∧ FromHead (m.head j)

/-- The request the coroutine has dispatched and still works on. -/
def ReqPc.held : ReqPc → Option ReqIx
  | .io (.badGateway j _) _ => some j
  | .io (.forward j _ _) _ => some j
  | .io (.body j _) _ => some j
  | .io (.ok200 j _) _ => some j
  | .io (.tunnel j _) _ => some j
  | .resolve j => some j
  | .dns j _ => some j
  | .resolved j _ => some j
  | .addrs j _ => some j
  | .getConn j _ _ => some j
  | .connect j _ _ => some j
  | .connected j _ _ _ => some j
  | _ => none

/-- A coroutine that fetches will get a head, if it gets anything. -/
def ReqPc.Fetches : ReqPc → Prop
  | .io .fetch p => p.Returns FetchResult
  | _ => True

/-- Every request a client works on or has queued was dispatched. -/
structure Kept (cl : Client) : Prop where
  fetches : cl.req.Fetches
  held : ∀ j ∈ cl.req.held, cl.mem.Dispatched j
  list : ∀ p n, cl.cxt.list.nodes p = some n → cl.mem.Dispatched n.val.req

theorem ReqPc.held_io {α : Type} (k : ReqK α) (p p' : Io α) :
    (ReqPc.io k p).held = (ReqPc.io k p').held := by
  cases k <;> rfl

/-- A request holds on to its head. -/
theorem Mem.Dispatched.mono {m m' : Mem} {j : ReqIx} (h : m.Dispatched j) (hle : m.nreq ≤ m'.nreq)
    (hhead : m'.head j = m.head j) : m'.Dispatched j := by
  refine ⟨Nat.lt_of_lt_of_le h.1 hle, ?_⟩
  rw [hhead]
  exact h.2

section

variable {l l' : Local} {cl : Client} {ch : Choice}

/-- `l'` has the requests and the list of `l`. -/
abbrev Local.SameReqs (l l' : Local) : Prop :=
  l.SameHeads l' ∧ l'.cl.cxt.list = l.cl.cxt.list

theorem Local.SameReqs.dispatched (h : l.SameReqs l') {j : ReqIx} (hj : l.cl.mem.Dispatched j) :
    l'.cl.mem.Dispatched j :=
  hj.mono (Nat.le_of_eq h.1.1.symm) (by rw [h.1.2])

/-- A coroutine that keeps the requests goes on with one it held. -/
theorem Kept.move (h : Kept l.cl) (hsame : l.SameReqs l') (hfetches : l'.cl.req.Fetches)
    (hheld : ∀ j ∈ l'.cl.req.held, j ∈ l.cl.req.held) : Kept l'.cl where
  fetches := hfetches
  held := fun j hj => hsame.dispatched (h.held j (hheld j hj))
  list := by
    intro p n hn
    rw [hsame.2] at hn
    exact hsame.dispatched (h.list p n hn)

-- ============================================================================
-- I/O
-- ============================================================================

/-- An operation changes no request. -/
theorem IoCase.sameReqs {side : Side} {srv : ConnIx} {α : Type} {p p' : Io α}
    (h : IoCase l side srv p l' p') : l.SameReqs l' ∧ l'.cl.req = l.cl.req := by
  cases h with
  | unroll body s k => exact ⟨⟨⟨rfl, rfl⟩, rfl⟩, rfl⟩
  | stuck o k f => exact ⟨⟨⟨rfl, rfl⟩, rfl⟩, rfl⟩
  | yield r d k hfreed =>
      refine ⟨⟨l.park_heads side _, ?_⟩, ?_⟩
      · cases side <;> rfl
      · cases side <;> rfl
  | act hfreed hact =>
      cases hact with
      | sys r q res hok => cases q <;> cases res <;> exact ⟨⟨⟨rfl, rfl⟩, rfl⟩, rfl⟩
      | close r => simp [Local.SameReqs, Local.SameHeads]
      | _ => exact ⟨⟨⟨rfl, rfl⟩, rfl⟩, rfl⟩

/-- A program goes on to return what it would. -/
theorem IoCase.returns {side : Side} {srv : ConnIx} {α : Type} {p p' : Io α} {Q : α → Prop}
    (h : IoCase l side srv p l' p') (hp : p.Returns Q) : p'.Returns Q := by
  cases h with
  | unroll body s k => exact hp.unroll
  | stuck o k f => exact hp
  | yield r d k hfreed => exact hp
  | act hfreed hact => exact (Prog.returns_call _ _ _).mp hp _

theorem ioResume_returns {α : Type} {p : Io α} {Q : α → Prop} (ret : Int) (h : p.Returns Q) :
    (ioResume ret p).Returns Q := by
  unfold ioResume
  split
  · exact (Prog.returns_call _ _ _).mp h ret
  · exact h

-- ============================================================================
-- The request coroutine
-- ============================================================================

/-- Doing something else to the client, the coroutine stays where it is. -/
theorem Kept.same (h : Kept l.cl) (hsame : l.SameReqs l') (hreq : l'.cl.req = l.cl.req) :
    Kept l'.cl := by
  apply h.move hsame
  · rw [hreq]
    exact h.fetches
  · intro j hj
    rwa [hreq] at hj

theorem Kept.setReqPc (h : Kept l.cl) {pc : ReqPc} (hfetches : pc.Fetches)
    (hheld : ∀ j ∈ pc.held, l.cl.mem.Dispatched j) : Kept (l.setReqPc pc).cl :=
  ⟨hfetches, hheld, h.list⟩

/-- Nothing is held in this state. -/
theorem Kept.drop (h : Kept l.cl) {pc : ReqPc} (hfetches : pc.Fetches) (hheld : pc.held = none) :
    Kept (l.setReqPc pc).cl := by
  refine h.setReqPc hfetches fun j hj => ?_
  rw [hheld] at hj
  exact absurd hj (by simp)

/-- The request is held in the next state, too. -/
theorem Kept.hold (h : Kept l.cl) {j : ReqIx} (hj : l.cl.mem.Dispatched j) {pc : ReqPc}
    (hfetches : pc.Fetches) (hheld : pc.held = some j) : Kept (l.setReqPc pc).cl := by
  refine h.setReqPc hfetches fun j' hj' => ?_
  rw [hheld] at hj'
  exact Option.some.inj hj' ▸ hj

theorem Kept.decrefReq (h : Kept l.cl) (j : ReqIx) : Kept (l.decrefReq j).cl :=
  h.same (by simp [Local.SameReqs, Local.SameHeads]) (by simp)

theorem Kept.decrefConn (h : Kept l.cl) (i : ConnIx) : Kept (l.decrefConn i).cl :=
  h.same (by simp [Local.SameReqs, Local.SameHeads]) (by simp)

theorem reqFailed_kept (h : Kept l.cl) (j : ReqIx) (server : Option ConnIx) :
    Kept (l.reqFailed j server).cl := by
  cases server with
  | none => exact (h.decrefReq j).drop trivial rfl
  | some s => exact ((h.decrefConn s).decrefReq j).drop trivial rfl

/-- A request is queued behind those that are. -/
theorem appendEntry_kept (h : Kept l.cl) {j : ReqIx} (hj : l.cl.mem.Dispatched j) (s : ConnIx) :
    Kept (l.appendEntry j s).cl := by
  have hsame : l.SameReqs ((l.increfConn s).increfReq j) := by
    simp [Local.SameReqs, Local.SameHeads]
  have hkept : Kept ((l.increfConn s).increfReq j).cl := h.same hsame (by simp)
  refine ⟨hkept.fetches, hkept.held, fun p n hn => ?_⟩
  rcases Lib.LinkedQueue.push_val hn with hval | ⟨n', hn', hval⟩
  · rw [hval]
    exact hsame.dispatched hj
  · rw [← hval]
    exact hkept.list p n' hn'

theorem appendEntry_dispatched {j k : ReqIx} (s : ConnIx) (hk : l.cl.mem.Dispatched k) :
    (l.appendEntry j s).cl.mem.Dispatched k := by
  have hsame : l.SameReqs ((l.increfConn s).increfReq j) := by
    simp [Local.SameReqs, Local.SameHeads]
  exact hsame.dispatched hk

/-- A Host field that is added leaves the buffer as it is. -/
theorem gotServer_kept (h : Kept l.cl) {j : ReqIx} (hj : l.cl.mem.Dispatched j) (s : ConnIx) :
    Kept (l.gotServer j s).cl := by
  unfold Local.gotServer
  split
  · have hsame (req : NetReq) (hbuf : req.data.buf = (l.cl.mem.reqs j).req.data.buf) :
        l.SameReqs { l with
          cl.mem := l.cl.mem.setReq j fun r => { r with req }
          cl.hist.fwdSent := 0 } :=
      ⟨⟨rfl, l.cl.mem.setReq_head j (fun r => { r with req }) rfl hbuf⟩, rfl⟩
    have hbuf : ∀ req : NetReq, (if netDataGetEnt req.data (bytesOf "Host") = none then
        netDataSetEntOffset req.data (bytesOf "Host") req.host else req.data).buf =
          req.data.buf := by
      intro req
      split <;> rfl
    have hsame' := hsame { (l.cl.mem.reqs j).req with data := _ } (hbuf _)
    exact (h.same hsame' rfl).hold (hsame'.dispatched hj) trivial rfl
  · have hkept := appendEntry_kept h hj s
    have hj' := appendEntry_dispatched (j := j) s hj
    exact ⟨trivial, fun j' hj'' => Option.some.inj hj'' ▸ hj', hkept.list⟩

theorem reqForwarded_kept (h : Kept l.cl) {j : ReqIx} (hj : l.cl.mem.Dispatched j) (s : ConnIx)
    (ret : Int) : Kept (l.reqForwarded j s ret).cl := by
  unfold Local.reqForwarded
  split
  · have hkept := appendEntry_kept h hj s
    have hj' := appendEntry_dispatched (j := j) s hj
    dsimp only
    split
    · exact ⟨trivial, fun j' hj'' => Option.some.inj hj'' ▸ hj', hkept.list⟩
    · exact ⟨trivial, fun j' hj'' => Option.some.inj hj'' ▸ hj', hkept.list⟩
  · have hsame : l.SameReqs (l.decrefConn s) := by
      simp [Local.SameReqs, Local.SameHeads]
    exact (h.decrefConn s).hold (hsame.dispatched hj) trivial rfl

/-- A head for which a handler is found and which is accepted is dispatched. -/
theorem reqFetched_kept (h : Kept l.cl) {ret : Int} {data : NetData}
    (hfetch : FetchResult (ret, data)) : Kept (l.reqFetched ret data).cl := by
  unfold Local.reqFetched
  split
  · exact h.drop trivial rfl
  rename_i hret
  split
  · exact h.drop trivial rfl
  rename_i kind hkind
  rw [netGetHandler_entry] at hkind
  obtain ⟨entry, hentry, hkind⟩ := Option.map_eq_some_iff.mp hkind
  generalize hparse : netParseReq (netReqInit data) = p
  obtain ⟨req, ret'⟩ := p
  dsimp only
  generalize hreq' :
    (if kind = .connect ∧ ret' = 0 then { req with host := req.path } else req) = req'
  have hbuf : req'.data.buf = req.data.buf := by
    rw [← hreq']
    split <;> rfl
  have hkept : Kept (l.newReq req' kind).cl := by
    have hold {j : ReqIx} (hj : l.cl.mem.Dispatched j) : (l.newReq req' kind).cl.mem.Dispatched j :=
      hj.mono (Nat.le_succ _) (l.newReq_head req' kind hj.1)
    exact ⟨h.fetches, fun j hj => hold (h.held j hj), fun p n hn => hold (h.list p n hn)⟩
  split
  · exact hkept.drop trivial rfl
  rename_i hret'
  have hzero : ret' = 0 := Classical.not_not.mp hret'
  have hnew : (l.newReq req' kind).cl.mem.Dispatched l.cl.mem.nreq := by
    refine ⟨Nat.lt_succ_self _, ?_⟩
    rw [l.newReq_new req' kind]
    rcases hfetch (Classical.not_not.mp hret) with ⟨heap, hdata⟩ | ⟨line, hline⟩
    · have hnone : handlerEntry (data.buf.str 0) = none := by
        rw [show data = netDataInit heap from hdata]
        rfl
      exact absurd (hnone.symm.trans hentry) (by simp)
    · exact ⟨line, data, req, entry, hline, hentry, by rw [hparse, hzero], hkind, hbuf.symm⟩
  exact hkept.hold hnew trivial rfl

/-- An I/O call returns. -/
theorem reqRet_kept (h : Kept l.cl) {α : Type} {k : ReqK α} {a : α}
    (hreq : l.cl.req = .io k (.ret a)) : Kept (l.reqRet k a).cl := by
  have hheld := h.held
  have hfetches := h.fetches
  rw [hreq] at hheld hfetches
  cases k with
  | fetch => exact reqFetched_kept h hfetches
  | badRequest req =>
      cases req with
      | none => exact h.drop trivial rfl
      | some j => exact (h.decrefReq j).drop trivial rfl
  | badGateway j server => exact reqFailed_kept h j server
  | forward j s head => exact reqForwarded_kept h (hheld j rfl) s a
  | body j s =>
      show Kept (if a ≠ 0 then l.setReqPc (.io (.badGateway j (some s)) (netBadGateway .client))
        else ((l.decrefConn s).decrefReq j).setReqPc .loop).cl
      split
      · exact h.hold (hheld j rfl) trivial rfl
      · exact ((h.decrefConn s).decrefReq j).drop trivial rfl
  | ok200 j s =>
      show Kept (if a ≠ 0 then l.setReqPc (.io (.badGateway j (some s)) (netBadGateway .client))
        else l.setReqPc (.io (.tunnel j s) (netTunnel .server .client))).cl
      split
      · exact h.hold (hheld j rfl) trivial rfl
      · exact h.hold (hheld j rfl) trivial rfl
  | tunnel j s => exact reqFailed_kept h j (some s)

theorem dnsLookup_kept (h : Kept l.cl) {j : ReqIx} (hj : l.cl.mem.Dispatched j)
    (hs : l.dnsLookup j ch = some l') : Kept l'.cl := by
  unfold Local.dnsLookup at hs
  dsimp only at hs
  split at hs
  · rw [← Option.some.inj hs]
    exact h.hold hj trivial rfl
  · split at hs
    · split at hs
      · rw [← Option.some.inj hs]
        exact ⟨trivial, fun j' hj' => Option.some.inj hj' ▸ hj, h.list⟩
      · rw [← Option.some.inj hs]
        exact h.same ⟨⟨rfl, rfl⟩, rfl⟩ rfl
    · exact absurd hs (by simp)

theorem dnsResolved_kept (h : Kept l.cl) {j : ReqIx} (hj : l.cl.mem.Dispatched j) (eid : EventId)
    (res : Option (List AddrInfo)) : Kept (l.dnsResolved j eid res).cl := by
  unfold Local.dnsResolved
  cases res with
  | none => exact ⟨trivial, fun j' hj' => Option.some.inj hj' ▸ hj, h.list⟩
  | some rps => exact ⟨trivial, fun j' hj' => Option.some.inj hj' ▸ hj, h.list⟩

theorem tryAddr_kept (h : Kept l.cl) {j : ReqIx} (hj : l.cl.mem.Dispatched j)
    (rps : List AddrInfo) : Kept (l.tryAddr j rps).cl := by
  cases rps with
  | nil => exact h.hold hj trivial rfl
  | cons rp rps =>
      rw [Local.tryAddr]
      split
      · exact h.hold hj trivial rfl
      split
      · exact h.hold hj trivial rfl
      dsimp only
      split
      · exact h.hold hj trivial rfl
      · rename_i s hs
        split
        · generalize hdel : l.cl.cxt.poolDel _ = cxt
          have hsame : l.SameReqs ({ l with cl.cxt := cxt }.decrefConn s) := by
            rw [← hdel]
            simp [Local.SameReqs, Local.SameHeads, Cxt.poolDel]
          have hreq : ({ l with cl.cxt := cxt }.decrefConn s).cl.req = l.cl.req := by simp
          exact (h.same hsame hreq).hold (hsame.dispatched hj) trivial rfl
        · have hsame : l.SameReqs (l.increfConn s) := by
            simp [Local.SameReqs, Local.SameHeads]
          exact gotServer_kept (h.same hsame (by simp)) (hsame.dispatched hj) s

theorem gotNewConn_kept (h : Kept l.cl) {j : ReqIx} (hj : l.cl.mem.Dispatched j) (i : ConnIx) :
    Kept (l.gotNewConn j i).cl := by
  unfold Local.gotNewConn
  dsimp only
  generalize hl₁ : (if ((l.connInit i).cl.mem.conns i).stat = .closed then
    (l.connInit i).decrefConn i else l.connInit i) = l₁
  have hsame : l.SameReqs l₁ ∧ l₁.cl.req = l.cl.req := by
    rw [← hl₁]
    split <;> simp [Local.SameReqs, Local.SameHeads]
  generalize hadd : l₁.cl.cxt.poolAdd _ i = cxt
  have hall : l.SameReqs ({ l₁ with cl.cxt := cxt }.increfConn i) := by
    rw [← hadd]
    obtain ⟨⟨⟨hnreq, hhead⟩, hlist⟩, -⟩ := hsame
    simp [Local.SameReqs, Local.SameHeads, Cxt.poolAdd, hnreq, hhead, hlist]
  have hreq : ({ l₁ with cl.cxt := cxt }.increfConn i).cl.req = l.cl.req := by
    simp [hsame.2]
  exact gotServer_kept (h.same hall hreq) (hall.dispatched hj) i

theorem getConn_kept (h : Kept l.cl) {j : ReqIx} (hj : l.cl.mem.Dispatched j) {ep : Endpoint}
    {rps : List AddrInfo} {res : ConnectRes} (hs : l.getConn j ep rps res = some l') :
    Kept l'.cl := by
  cases res with
  | fail =>
      rw [← Option.some.inj hs]
      exact h.hold hj trivial rfl
  | connected fd ok =>
      rw [Local.getConn] at hs
      split at hs
      · exact absurd hs (by simp)
      · rw [← Option.some.inj hs]
        have hsame : l.SameReqs (l.newConn fd ep ok) := ⟨l.newConn_heads fd ep ok, rfl⟩
        exact gotNewConn_kept (h.same hsame rfl) (hsame.dispatched hj) _
  | inProgress fd ok =>
      rw [Local.getConn] at hs
      split at hs
      · exact absurd hs (by simp)
      · have hsame : l.SameReqs (l.newConn fd ep ok) := ⟨l.newConn_heads fd ep ok, rfl⟩
        have hkept : Kept (l.newConn fd ep ok).cl := h.same hsame rfl
        have hj' := hsame.dispatched hj
        dsimp only at hs
        split at hs <;> rw [← Option.some.inj hs]
        · exact ⟨trivial, fun j' hj'' => Option.some.inj hj'' ▸ hj', hkept.list⟩
        · exact gotNewConn_kept hkept hj' _

theorem connConnected_kept (h : Kept l.cl) {j : ReqIx} (hj : l.cl.mem.Dispatched j) (i : ConnIx)
    (rps : List AddrInfo) (ret : Int) : Kept (l.connConnected j i rps ret).cl := by
  unfold Local.connConnected
  split
  · have hsame : l.SameReqs ((l.connDel i).decrefConnNull i) := by
      simp [Local.SameReqs, Local.SameHeads]
    exact (h.same hsame (by simp)).hold (hsame.dispatched hj) trivial rfl
  · exact gotNewConn_kept h hj i

theorem reqDone_kept (h : Kept l.cl) : Kept l.reqDone.cl := by
  unfold Local.reqDone
  dsimp only
  split
  · exact ⟨trivial, fun j hj => absurd hj (by simp [Local.setReqPc, ReqPc.held]), h.list⟩
  · exact ⟨trivial, fun j hj => absurd hj (by
      simp [Local.setReqPc, Local.park, Client.setWait, ReqPc.held]), h.list⟩

/-- Nothing is queued once the context is torn down. -/
theorem reqCleanup_kept : Kept l.reqCleanup.cl := by
  refine ⟨?_, ?_, ?_⟩
  · simp [Local.reqCleanup, Local.leave, Local.setReqPc, ReqPc.Fetches]
  · simp [Local.reqCleanup, Local.leave, Local.setReqPc, ReqPc.held]
  · intro p n hn
    simp [Local.reqCleanup, Local.leave, Local.setReqPc, LinkedQueue.empty] at hn

/-- A program the coroutine runs does not change what it works on. -/
theorem reqIo_kept (h : Kept l.cl) {α : Type} {k : ReqK α} {p p' : Io α} {srv : ConnIx}
    (hreq : l.cl.req = .io k p) (hio : IoCase l .req srv p l' p') :
    Kept (l'.setReqPc (.io k p')).cl := by
  have hfetches := h.fetches
  rw [hreq] at hfetches
  refine h.move hio.sameReqs.1 ?_ fun j hj => ?_
  · cases k with
    | fetch => exact hio.returns hfetches
    | _ => trivial
  · rw [hreq, ReqPc.held_io k p p']
    exact hj

theorem reqStep_kept (h : Kept l.cl) (hs : reqStep l ch = some l') : Kept l'.cl := by
  have hheld := h.held
  unfold reqStep at hs
  split at hs <;> rename_i hreq
  · split at hs
    · rw [← Option.some.inj hs]
      exact h.drop trivial rfl
    · rw [← Option.some.inj hs]
      exact ⟨netFetchHttp_returns .client _,
        fun j hj => absurd hj (by simp [Local.setReqPc, ReqPc.held]),
        h.list⟩
  · rw [← Option.some.inj hs]
    exact reqRet_kept h hreq
  · obtain ⟨⟨l₁, p'⟩, hio, rfl⟩ := Option.map_eq_some_iff.mp hs
    exact reqIo_kept h hreq (Local.ioStep_inv hio)
  · exact dnsLookup_kept h (hheld _ (by rw [hreq]; rfl)) hs
  · split at hs
    · rw [← Option.some.inj hs]
      exact dnsResolved_kept h (hheld _ (by rw [hreq]; rfl)) _ _
    · exact absurd hs (by simp)
  · rw [← Option.some.inj hs]
    exact tryAddr_kept h (hheld _ (by rw [hreq]; rfl)) _
  · split at hs
    · exact getConn_kept h (hheld _ (by rw [hreq]; rfl)) hs
    · exact absurd hs (by simp)
  · rw [← Option.some.inj hs]
    exact connConnected_kept h (hheld _ (by rw [hreq]; rfl)) _ _ _
  · rw [← Option.some.inj hs]
    exact reqDone_kept h
  · rw [← Option.some.inj hs]
    exact reqCleanup_kept
  all_goals exact absurd hs (by simp)

-- ============================================================================
-- The response coroutine
-- ============================================================================

/-- The nodes of `l'` are nodes of `l`. -/
abbrev Local.NodesOf (l l' : Local) : Prop :=
  ∀ p n, l'.cl.cxt.list.nodes p = some n → l.cl.cxt.list.nodes p = some n

/-- Nothing is queued, and the request coroutine stays where it is. -/
theorem Kept.fewer (h : Kept l.cl) (hheads : l.SameHeads l') (hnodes : l.NodesOf l')
    (hreq : l'.cl.req = l.cl.req) : Kept l'.cl := by
  have hkeep {j : ReqIx} (hj : l.cl.mem.Dispatched j) : l'.cl.mem.Dispatched j :=
    hj.mono (Nat.le_of_eq hheads.1.symm) (by rw [hheads.2])
  refine ⟨?_, fun j hj => ?_, fun p n hn => hkeep (h.list p n (hnodes p n hn))⟩
  · rw [hreq]
    exact h.fetches
  · rw [hreq] at hj
    exact hkeep (h.held j hj)

theorem rspPop_kept (h : Kept l.cl) (node : Nat) (e : Entry) : Kept (l.rspPop node e).cl := by
  unfold Local.rspPop
  refine h.fewer ?_ ?_ ?_
  · simp [Local.SameHeads]
  · intro p n hn
    simp only [Local.setRspPc_frame, Local.decrefReq_frame, Local.decrefConn_frame] at hn
    exact LinkedQueue.pop_node hn
  · simp

theorem rspServed_kept (h : Kept l.cl) (node : Nat) (e : Entry) (ret : Int) :
    Kept (l.rspServed node e ret).cl := by
  unfold Local.rspServed
  dsimp only
  split
  · exact h.same ⟨⟨rfl, rfl⟩, rfl⟩ rfl
  split
  · split
    · exact h.same ⟨⟨rfl, rfl⟩, rfl⟩ rfl
    · apply rspPop_kept
      apply h.same
      · simp [Local.SameReqs, Local.SameHeads, Cxt.poolDel]
      · simp
  split
  · exact h.same ⟨⟨rfl, rfl⟩, rfl⟩ rfl
  · exact rspPop_kept h node e

theorem rspLoop_kept (h : Kept l.cl) (mem : Nat → Bytes) : Kept (l.rspLoop mem).cl := by
  unfold Local.rspLoop
  split
  · exact h.same ⟨⟨rfl, rfl⟩, rfl⟩ rfl
  split
  · exact h.same ⟨⟨rfl, rfl⟩, rfl⟩ rfl
  split
  · exact h.same ⟨⟨rfl, rfl⟩, rfl⟩ rfl
  split
  · exact h.same ⟨⟨rfl, rfl⟩, rfl⟩ rfl
  split
  · exact h.same ⟨⟨rfl, rfl⟩, rfl⟩ rfl
  · exact h.same ⟨⟨rfl, rfl⟩, rfl⟩ rfl

theorem rspExit_kept (h : Kept l.cl) : Kept l.rspExit.cl := by
  unfold Local.rspExit
  apply h.same
  · dsimp only
    split <;> simp [Local.SameReqs, Local.SameHeads, Local.leave]
  · dsimp only
    split <;> simp [Local.leave]

theorem rspStep_kept (h : Kept l.cl) (hs : rspStep l ch = some l') : Kept l'.cl := by
  unfold rspStep at hs
  split at hs
  · rw [← Option.some.inj hs]
    exact h.same ⟨⟨rfl, rfl⟩, rfl⟩ rfl
  split at hs
  · rw [← Option.some.inj hs]
    exact rspLoop_kept h _
  · rw [← Option.some.inj hs]
    exact rspServed_kept h _ _ _
  · obtain ⟨⟨l₁, p'⟩, hio, rfl⟩ := Option.map_eq_some_iff.mp hs
    have hcase := Local.ioStep_inv hio
    exact h.same hcase.sameReqs.1 hcase.sameReqs.2
  · rw [← Option.some.inj hs]
    exact rspExit_kept h
  all_goals exact absurd hs (by simp)

-- ============================================================================
-- Runs
-- ============================================================================

/-- A request coroutine that is resumed works on what it has worked on. -/
theorem resumeReq_pc (cl : Client) (ret : Int) :
    ((cl.resumeReq ret).req.held = cl.req.held ∨ (cl.resumeReq ret).req.held = none) ∧
      (cl.req.Fetches → (cl.resumeReq ret).req.Fetches) := by
  unfold Client.resumeReq
  dsimp only
  split
  · exact ⟨.inr rfl, fun _ => trivial⟩
  · rename_i α k p hreq
    rw [hreq]
    refine ⟨.inl (ReqPc.held_io k _ _), fun hfetches => ?_⟩
    cases k with
    | fetch => exact ioResume_returns ret hfetches
    | _ => trivial
  · rename_i hreq
    rw [hreq]
    exact ⟨.inl rfl, fun _ => trivial⟩
  · rename_i hreq
    rw [hreq]
    exact ⟨.inl rfl, fun _ => trivial⟩
  · exact ⟨.inr rfl, fun _ => trivial⟩
  · exact ⟨.inl rfl, fun hfetches => hfetches⟩

theorem resume_mem (cl : Client) (side : Side) (ret : Int) :
    (cl.resume side ret).mem = cl.mem ∧ (cl.resume side ret).cxt.list = cl.cxt.list := by
  cases side with
  | req =>
      show (cl.resumeReq ret).mem = cl.mem ∧ (cl.resumeReq ret).cxt.list = cl.cxt.list
      unfold Client.resumeReq
      dsimp only
      split <;> exact ⟨rfl, rfl⟩
  | rsp =>
      show (cl.resumeRsp ret).mem = cl.mem ∧ (cl.resumeRsp ret).cxt.list = cl.cxt.list
      unfold Client.resumeRsp
      dsimp only
      split <;> exact ⟨rfl, rfl⟩

theorem resume_kept (h : Kept cl) (side : Side) (ret : Int) : Kept (cl.resume side ret) := by
  obtain ⟨hmem, hlist⟩ := resume_mem cl side ret
  have hpc : ((cl.resume side ret).req.held = cl.req.held ∨ (cl.resume side ret).req.held = none) ∧
      (cl.req.Fetches → (cl.resume side ret).req.Fetches) := by
    cases side with
    | req => exact resumeReq_pc cl ret
    | rsp =>
        have hreq : (cl.resumeRsp ret).req = cl.req := by
          unfold Client.resumeRsp
          dsimp only
          split <;> rfl
        show ((cl.resumeRsp ret).req.held = cl.req.held ∨ _) ∧ (_ → (cl.resumeRsp ret).req.Fetches)
        rw [hreq]
        exact ⟨.inl rfl, id⟩
  refine ⟨hpc.2 h.fetches, ?_, ?_⟩
  · intro j hj
    rw [hmem]
    rcases hpc.1 with heq | hnone
    · exact h.held j (heq ▸ hj)
    · rw [hnone] at hj
      exact absurd hj (by simp)
  · rw [hmem, hlist]
    exact h.list

theorem newClient_kept (sh : Shared) (conn : Conn) : Kept (World.newClient sh conn) :=
  ⟨trivial, fun _ hj => absurd hj (by simp [World.newClient, ReqPc.held]),
    fun _ _ hn => absurd hn (by simp [World.newClient, LinkedQueue.empty])⟩

end

namespace World

variable {w w' : World} {ch : Choice} {c : ClientId} {cl cl' : Client}

theorem kept_step (h : ∀ c cl, w.clients c = some cl → Kept cl) (hs : w.step ch = some w')
    (hcl' : w'.clients c = some cl') : Kept cl' := by
  cases client_cases hs hcl' with
  | same hcl _ => exact h c cl' hcl
  | @co side cl l' _ hcl hstep heq _ =>
      rw [heq]
      cases side with
      | req => exact reqStep_kept (h c cl hcl) hstep
      | rsp => exact rspStep_kept (h c cl hcl) hstep
  | @resume side cl ret m _ hcl _ heq _ =>
      rw [heq]
      exact resume_kept (h c cl hcl) side ret
  | @err cl i _ _ hcl _ heq =>
      rw [heq]
      obtain ⟨hfetches, hheld, hlist⟩ := h c cl hcl
      exact ⟨hfetches, hheld, hlist⟩
  | new _ _ _ _ heq =>
      rw [heq]
      exact newClient_kept _ _

theorem kept_reachable (h : w.Reachable) : ∀ c cl, w.clients c = some cl → Kept cl := by
  refine h.invariant (fun w => ∀ c cl, w.clients c = some cl → Kept cl) ?_ ?_
  · intro c cl hcl
    exact absurd hcl (by simp [init])
  · intro w w' ch hkept _ hs c cl' hcl'
    exact kept_step hkept hs hcl'

end World

-- ============================================================================
-- Both lookups
-- ============================================================================

/-- Where a handler is found for a head that is accepted, the same entry is found in the parsed
    buffer; and every request in a client's list, in every reachable state, has the buffer and the
    handlers of such a head. -/
theorem handlers_agree :
    (∀ line data req entry, Fetched line data → handlerEntry (data.buf.str 0) = some entry →
      netParseReq (netReqInit data) = (req, 0) → handlerEntry (req.data.buf.str 0) = some entry) ∧
    ∀ w : World, w.Reachable → ∀ c cl, w.clients c = some cl →
      ∀ p n, cl.cxt.list.nodes p = some n →
        ∃ line data req entry, Fetched line data ∧ handlerEntry (data.buf.str 0) = some entry ∧
          netParseReq (netReqInit data) = (req, 0) ∧
          (cl.mem.reqs n.val.req).req.data.buf = req.data.buf ∧
          (cl.mem.reqs n.val.req).kind = entry.2 ∧
          handlerEntry ((cl.mem.reqs n.val.req).req.data.buf.str 0) = some entry := by
  have hagree {line : Bytes} {data : NetData} {req : NetReq} {entry : Bytes × HandlerKind}
      (hline : Fetched line data) (hentry : handlerEntry (data.buf.str 0) = some entry)
      (hreq : netParseReq (netReqInit data) = (req, 0)) :
      handlerEntry (req.data.buf.str 0) = some entry :=
    (handlerEntry_parsed hline hreq).trans hentry
  refine ⟨fun line data req entry => hagree, fun w hw c cl hcl p n hn => ?_⟩
  have hkept := World.kept_reachable hw c cl hcl
  obtain ⟨-, line, data, req, entry, hline, hentry, hreq, hkind, hbuf⟩ := hkept.list p n hn
  have hbuf' : (cl.mem.reqs n.val.req).req.data.buf = req.data.buf := hbuf.symm
  refine ⟨line, data, req, entry, hline, hentry, hreq, hbuf', hkind.symm, ?_⟩
  rw [hbuf']
  exact hagree hline hentry hreq

/-- A client connects and asks for a tunnel, which is granted. -/
def connectRequest : List Choice :=
  [.epoll [⟨5, false⟩], .accept (.conn 6 ⟨.inet, 1, [127, 0, 0, 1]⟩ true), .accept .stop,
    .sys (.ok (bytesOf "CONNECT a:1 HTTP/1.1\r\n\r\n")), .lookup true, .dnsDone 2,
    .epoll [⟨4, false⟩], .addrs (some [⟨.inet, [1, 2, 3, 4]⟩]), .connect (.connected 7 true)]

/-- While the request is queued its handler is found, which is the one found on its line. -/
theorem handlers_agree_connect : ∃ (w : World) (cl : Client) (n : Lib.Node Entry) (line : Bytes)
    (data : NetData) (req : NetReq) (entry : Bytes × HandlerKind), w.Reachable ∧
    w.clients 0 = some cl ∧ cl.cxt.list.nodes 0 = some n ∧ Fetched line data ∧
    handlerEntry (data.buf.str 0) = some entry ∧ handlerEntry (req.data.buf.str 0) = some entry ∧
    handlerEntry ((cl.mem.reqs n.val.req).req.data.buf.str 0) = some entry := by
  have hd : (World.driveInit (fun _ _ => true) 300 connectRequest).any (fun w =>
      (w.clients 0).any fun cl => (cl.cxt.list.nodes 0).isSome) = true := by
    decide +kernel
  obtain ⟨w, hw, hp⟩ := World.reachable_of_drive hd
  obtain ⟨cl, hcl, hp⟩ := (Option.any_eq_true _ _).mp hp
  obtain ⟨n, hn⟩ := Option.isSome_iff_exists.mp hp
  obtain ⟨line, data, req, entry, hline, hentry, hreq, -, -, hqueued⟩ :=
    handlers_agree.2 w hw 0 cl hcl 0 n hn
  exact ⟨w, cl, n, line, data, req, entry, hw, hcl, hn, hline, hentry,
    handlers_agree.1 line data req entry hline hentry hreq, hqueued⟩

end HttpProxy
