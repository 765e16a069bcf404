/-
  HttpProxy.Notify.Refine

  The proxy refines the notification protocol: `World.notify` forgets what the
  protocol does not mention, and every step of the proxy is a step of
  `Notify.Step` between the images (`step_refines`).
-/

import HttpProxy.Notify.Model

namespace HttpProxy

open Lib Notify

-- ============================================================================
-- The abstraction
-- ============================================================================

def ReqPc.pos : ReqPc → ReqPos
  | .start => .start
  | .loop => .work
  | .io _ _ => .work
  | .resolve _ => .work
  | .dns _ eid => .dns eid
  | .resolved _ eid => .resolved eid
  | .addrs _ _ => .work
  | .getConn _ _ _ => .work
  | .connect _ _ _ => .work
  | .connected _ _ _ _ => .work
  | .done => .done
  | .final => .final
  | .cleanup => .cleanup
  | .finished => .finished

/-- An I/O call is work to the protocol, whatever it is. -/
@[simp] theorem ReqPc.pos_io {α : Type} (k : ReqK α) (p : Io α) : (ReqPc.io k p).pos = .work := rfl

def RspPc.pos : RspPc → RspPos
  | .start => .start
  | .loop => .loop
  | .empty => .empty
  | .serve _ _ _ => .serve
  | .exit => .exit
  | .finished => .finished

def Client.peer (cl : Client) : Peer where
  evReq := cl.cxt.evReq
  evRsp := cl.cxt.evRsp
  reqBlocked := cl.cxt.reqBlocked
  rspBlocked := cl.cxt.rspBlocked
  rspWillExited := cl.cxt.rspWillExited
  queued := cl.cxt.list.head.isSome
  req := cl.req.pos
  reqWait := cl.reqWait
  rsp := cl.rsp.pos
  rspWait := cl.rspWait

def Shared.hub (sh : Shared) : Hub where
  ev := sh.ev
  running := sh.callCxt
  inEvent := sh.main = .eventRet
  exited := sh.main = .exited
  table := sh.net.table
  pend := sh.main.calls
  flight := sh.dns.flight
  sigPending := sh.dns.sigPending

def World.notify (w : World) : State where
  peers := fun c => (w.clients c).map Client.peer
  nclients := w.nclients
  hub := w.sh.hub

-- ============================================================================
-- The request coroutine
-- ============================================================================

namespace Local

/-- Registrations for I/O can disappear, and nothing else changes. -/
structure Drops (h h' : Hub) : Prop where
  eq : h' = { h with table := h'.table }
  sheds : Sheds h.table h'.table

/-- The request coroutine went from `l` to `l'` without a word to anybody. -/
structure ReqQuiet (l l' : Local) : Prop where
  c : l'.c = l.c
  main : l'.sh.main = l.sh.main
  peer : l'.cl.peer = { l.cl.peer with req := l'.cl.req.pos }
  drops : Drops l.sh.hub l'.sh.hub

structure ReqRefines (l l' : Local) : Prop where
  c : l'.c = l.c
  main : l'.sh.main = l.sh.main
  step : ReqStep l.c l.cl.peer l.sh.hub l'.cl.peer l'.sh.hub

/-- A step without a word is work that goes on, or reaches req_done. -/
theorem ReqQuiet.refines {l l' : Local} (h : ReqQuiet l l') (hpc : l.cl.req.pos = .work)
    (hpc' : l'.cl.req.pos = .work ∨ l'.cl.req.pos = .done) : ReqRefines l l' := by
  refine ⟨h.c, h.main, ?_⟩
  rw [h.peer, h.drops.eq]
  exact .go hpc hpc' h.drops.sheds

variable (l : Local)

/-- What a quiet step has to show. -/
theorem reqQuiet_of {l' : Local} (hc : l'.c = l.c) (hmain : l'.sh.main = l.sh.main)
    (hpeer : l'.cl.peer = { l.cl.peer with req := l'.cl.req.pos })
    (hhub : l'.sh.hub = { l.sh.hub with table := l'.sh.net.table })
    (hsheds : Sheds l.sh.net.table l'.sh.net.table) : ReqQuiet l l' :=
  ⟨hc, hmain, hpeer, hhub, hsheds⟩

/-- What a quiet step has to show, with the descriptors set apart. -/
theorem reqQuiet_of_net {l' : Local} (hc : l'.c = l.c) (hmain : l'.sh.main = l.sh.main)
    (hpeer : l'.cl.peer = { l.cl.peer with req := l'.cl.req.pos })
    (hhub : l'.sh.hub = { l.sh.hub with table := l'.sh.net.table })
    (hnet : l'.sh.net.table = l.sh.net.table) : ReqQuiet l l' :=
  l.reqQuiet_of hc hmain hpeer hhub (hnet ▸ Sheds.refl _)

theorem setReqPc_quiet (pc : ReqPc) : ReqQuiet l (l.setReqPc pc) :=
  l.reqQuiet_of_net rfl rfl rfl rfl rfl

/-- A request that is parsed, refused or not known is told to nobody. -/
theorem reqFetched_quiet (ret : Int) (data : NetData) :
    ReqQuiet l (l.reqFetched ret data) ∧ (l.reqFetched ret data).cl.req.pos = .work := by
  unfold reqFetched
  split
  · exact ⟨l.setReqPc_quiet _, rfl⟩
  · split
    · exact ⟨l.setReqPc_quiet _, rfl⟩
    · dsimp only
      split
      · exact ⟨l.reqQuiet_of_net (by simp) (by simp) (by simp [Client.peer])
          (by simp [Shared.hub]) (by simp), rfl⟩
      · exact ⟨l.reqQuiet_of_net (by simp) (by simp) (by simp [Client.peer])
          (by simp [Shared.hub]) (by simp), rfl⟩

/-- A failed request drops its references, and goes to req_done. -/
theorem reqFailed_quiet (j : ReqIx) (server : Option ConnIx) :
    ReqQuiet l (l.reqFailed j server) ∧ (l.reqFailed j server).cl.req.pos = .done := by
  cases server with
  | none =>
      exact ⟨l.reqQuiet_of_net (by simp [reqFailed]) (by simp [reqFailed])
        (by simp [reqFailed, Client.peer]) (by simp [reqFailed, Shared.hub])
        (by simp [reqFailed]), rfl⟩
  | some s =>
      exact ⟨l.reqQuiet_of (by simp [reqFailed]) (by simp [reqFailed])
        (by simp [reqFailed, Client.peer]) (by simp [reqFailed, Shared.hub])
        (by simpa [reqFailed] using l.sheds_decrefConn s), rfl⟩

/-- Quiet work behind quiet work. -/
theorem ReqQuiet.trans {l₁ l₂ l₃ : Local} (h₁ : ReqQuiet l₁ l₂) (h₂ : ReqQuiet l₂ l₃) :
    ReqQuiet l₁ l₃ := by
  refine ⟨h₂.c.trans h₁.c, h₂.main.trans h₁.main, ?_, ?_, h₁.drops.sheds.trans h₂.drops.sheds⟩
  · rw [h₂.peer, h₁.peer]
  · rw [h₂.drops.eq, h₁.drops.eq]

@[simp] theorem appendEntry_net (j : ReqIx) (s : ConnIx) :
    (l.appendEntry j s).sh.net = l.sh.net := by
  simp [appendEntry]

/-- A node is appended after quiet work, and work goes on. -/
theorem append_refines {l₀ l' : Local} {b : Bool} (hq : ReqQuiet l₀ l)
    (hpc₀ : l₀.cl.req.pos = .work) (hpc : l.cl.req.pos = .work)
    (hb : l.cl.cxt.rspBlocked = true → b = true) (hc : l'.c = l.c)
    (hmain : l'.sh.main = l.sh.main) (hpeer : l'.cl.peer = { l.cl.peer with queued := true })
    (hhub : l'.sh.hub = { l.sh.hub with
      ev := if b then l.sh.ev.eventPost l.cl.cxt.evRsp true else l.sh.ev }) :
    ReqRefines l₀ l' := by
  have hp : l.cl.peer = l₀.cl.peer := by
    rw [hq.peer, hpc, ← hpc₀]
    rfl
  have hblocked : l.cl.cxt.rspBlocked = l₀.cl.cxt.rspBlocked := congrArg Peer.rspBlocked hp
  have hevRsp : l.cl.cxt.evRsp = l₀.cl.cxt.evRsp := congrArg Peer.evRsp hp
  have hev : l.sh.ev = l₀.sh.ev := congrArg Hub.ev hq.drops.eq
  refine ⟨hc.trans hq.c, hmain.trans hq.main, ?_⟩
  rw [hpeer, hhub, hp, hev, hevRsp, hq.drops.eq]
  exact .append hpc₀ (fun h => hb (hblocked.trans h)) hq.drops.sheds

/-- An HTTP request goes on quietly; a CONNECT request is appended and told. -/
theorem gotServer_refines {l₀ : Local} (hq : ReqQuiet l₀ l) (hpc₀ : l₀.cl.req.pos = .work)
    (hpc : l.cl.req.pos = .work) (j : ReqIx) (s : ConnIx) : ReqRefines l₀ (l.gotServer j s) := by
  unfold gotServer
  split
  · refine (hq.trans ?_).refines hpc₀ (.inl rfl)
    exact l.reqQuiet_of_net (by simp) (by simp) (by simp [Client.peer]) (by simp [Shared.hub])
      (by simp)
  · refine l.append_refines (b := true) hq hpc₀ hpc (fun _ => rfl) ?_ ?_ ?_ ?_
    · simp [appendEntry]
    · simp [appendEntry]
    · simp [Client.peer, appendEntry, LinkedQueue.push_head_isSome, hpc]
    · simp [Shared.hub, appendEntry]

/-- A request that was forwarded is appended, and told if the other coroutine sleeps. -/
theorem reqForwarded_refines (hpc : l.cl.req.pos = .work) (j : ReqIx) (s : ConnIx) (ret : Int) :
    ReqRefines l (l.reqForwarded j s ret) := by
  have hrefl : ReqQuiet l l := l.reqQuiet_of_net rfl rfl rfl rfl rfl
  unfold reqForwarded
  split
  · refine l.append_refines (b := l.cl.cxt.rspBlocked) hrefl hpc hpc id ?_ ?_ ?_ ?_
    · cases h : l.cl.cxt.rspBlocked <;> simp [appendEntry, h]
    · cases h : l.cl.cxt.rspBlocked <;> simp [appendEntry, h]
    · cases h : l.cl.cxt.rspBlocked <;>
        simp [Client.peer, appendEntry, LinkedQueue.push_head_isSome, hpc, h]
    · cases h : l.cl.cxt.rspBlocked <;> simp [Shared.hub, appendEntry, h]
  · refine ReqQuiet.refines ?_ hpc (.inl rfl)
    exact l.reqQuiet_of (by simp) (by simp) (by simp [Client.peer]) (by simp [Shared.hub])
      (by simpa using l.sheds_decrefConn s)

/-- The return of an I/O call. -/
theorem reqRet_refines (hpc : l.cl.req.pos = .work) {α : Type} (k : ReqK α) (a : α) :
    ReqRefines l (l.reqRet k a) := by
  cases k with
  | fetch =>
      obtain ⟨ret, data⟩ := a
      have h := l.reqFetched_quiet ret data
      exact h.1.refines hpc (.inl h.2)
  | badRequest req =>
      cases req with
      | none => exact (l.setReqPc_quiet _).refines hpc (.inr rfl)
      | some j =>
          exact (l.reqQuiet_of_net (by simp [reqRet]) (by simp [reqRet])
            (by simp [reqRet, Client.peer]) (by simp [reqRet, Shared.hub])
            (by simp [reqRet])).refines hpc (.inr rfl)
  | badGateway j server =>
      have h := l.reqFailed_quiet j server
      exact h.1.refines hpc (.inr h.2)
  | forward j s head => exact l.reqForwarded_refines hpc j s a
  | body j s =>
      show ReqRefines l (if a ≠ 0 then _ else _)
      split
      · exact (l.setReqPc_quiet _).refines hpc (.inl rfl)
      · have h : ReqQuiet l (((l.decrefConn s).decrefReq j).setReqPc .loop) :=
          l.reqQuiet_of (by simp) (by simp) (by simp [Client.peer]) (by simp [Shared.hub])
            (by simpa using l.sheds_decrefConn s)
        exact h.refines hpc (.inl rfl)
  | ok200 j s =>
      show ReqRefines l (if a ≠ 0 then _ else _)
      split
      · exact (l.setReqPc_quiet _).refines hpc (.inl rfl)
      · exact (l.setReqPc_quiet _).refines hpc (.inl rfl)
  | tunnel j s =>
      have h := l.reqFailed_quiet j (some s)
      exact h.1.refines hpc (.inr h.2)

/-- The request coroutine waits for I/O. -/
theorem park_io_refines (l' : Local) (hpc : l.cl.req.pos = .work) (hpc' : l'.cl.req.pos = .work)
    (hc : l'.c = l.c) (hmain : l'.sh.main = l.sh.main) {fd : Fd} {d : Dir}
    (hpeer : l'.cl.peer = { l.cl.peer with req := l'.cl.req.pos })
    (hhub : l'.sh.hub = { l.sh.hub with table := l'.sh.net.table })
    (hsheds : Sheds l.sh.net.table l'.sh.net.table) :
    ReqRefines l (l'.park .req (.io fd d)) := by
  refine ⟨hc, hmain, ?_⟩
  have hp : (l'.park .req (.io fd d)).cl.peer = { l.cl.peer with reqWait := some (.io fd d) } := by
    have h : (l'.park .req (.io fd d)).cl.peer = { l'.cl.peer with reqWait := some (.io fd d) } :=
      rfl
    rw [h, hpeer, hpc', ← hpc]
    rfl
  have hh : (l'.park .req (.io fd d)).sh.hub = { l.sh.hub with
      table := (l'.park .req (.io fd d)).sh.net.table, running := none } := by
    have h : (l'.park .req (.io fd d)).sh.hub = { l'.sh.hub with
        table := (l'.park .req (.io fd d)).sh.net.table, running := none } := rfl
    rw [h, hhub]
  rw [hp, hh]
  refine .block hpc ⟨?_, ?_⟩
  · intro fd' d' y hy
    rcases l'.sh.net.registered_netPullSetHandler hy with h | ⟨h₁, h₂, h₃⟩
    · exact .inl (hsheds.le _ _ _ h.1)
    · simp only [Option.some.injEq, Handler.co.injEq] at h₃
      exact .inr ⟨h₁, h₂, by rw [← h₃, co, hc]⟩
  · intro hok
    exact (l'.sh.net.tableOk_netPullSetHandler fd d _).mpr (hsheds.ok hok)

/-- A step of a program is quiet, or the coroutine waits. -/
theorem ioStep_req_refines {l l' : Local} {srv : ConnIx} {ch : Choice} {α : Type} {k : ReqK α}
    {p p' : Io α} (hpc : l.cl.req.pos = .work)
    (h : l.ioStep .req srv ch p = some (l', p')) : ReqRefines l (l'.setReqPc (.io k p')) := by
  rcases ioStep_cases h with hq | ⟨r, d, _, -, rfl, rfl⟩
  · refine ReqQuiet.refines ?_ hpc (.inl rfl)
    refine l.reqQuiet_of hq.c hq.main ?_ ?_ hq.sheds
    · simp [Client.peer, hq.cxt, hq.reqWait, hq.rsp, hq.rspWait]
    · simp [Shared.hub, hq.ev, hq.callCxt, hq.main, hq.dns]
  · exact l.park_io_refines (l.setReqPc (.io k p')) hpc rfl rfl rfl rfl rfl (Sheds.refl _)

/-- The lookup is found in the cache, handed out with a new id, or refused. -/
theorem dnsLookup_refines {l l' : Local} {j : ReqIx} {ch : Choice} (hpc : l.cl.req.pos = .work)
    (h : l.dnsLookup j ch = some l') : ReqRefines l l' := by
  unfold dnsLookup at h
  dsimp only at h
  split at h
  · rw [Option.some.injEq] at h
    subst h
    exact (l.setReqPc_quiet _).refines hpc (.inl rfl)
  · split at h
    · split at h
      · rw [Option.some.injEq] at h
        subst h
        exact ⟨rfl, rfl, .lookup hpc⟩
      · rw [Option.some.injEq] at h
        subst h
        exact ⟨rfl, rfl, .noLookup hpc⟩
    · exact absurd h (by simp)

/-- The id of the lookup is freed. -/
theorem dnsResolved_refines {l : Local} {j : ReqIx} {eid : EventId}
    (hpc : l.cl.req.pos = .resolved eid) (res : Option (List AddrInfo)) :
    ReqRefines l (l.dnsResolved j eid res) := by
  cases res <;> exact ⟨rfl, rfl, .resolved hpc⟩

/-- A turn of the loop over the addresses: quiet, unless the pool has a server. -/
theorem tryAddr_refines {l : Local} {j : ReqIx} {rps : List AddrInfo}
    (hpc : l.cl.req.pos = .work) : ReqRefines l (l.tryAddr j rps) := by
  cases rps with
  | nil => exact (l.setReqPc_quiet _).refines hpc (.inl rfl)
  | cons rp rps =>
      rw [tryAddr]
      split
      · exact (l.setReqPc_quiet _).refines hpc (.inl rfl)
      · split
        · exact (l.setReqPc_quiet _).refines hpc (.inl rfl)
        · dsimp only
          split
          · exact (l.setReqPc_quiet _).refines hpc (.inl rfl)
          · split
            · refine ReqQuiet.refines ?_ hpc (.inl rfl)
              refine l.reqQuiet_of (by simp) (by simp) (by simp [Client.peer, Cxt.poolDel])
                (by simp [Shared.hub]) ?_
              simpa using sheds_decrefConn { l with cl.cxt := l.cl.cxt.poolDel _ } _
            · refine gotServer_refines _ ?_ hpc (by simpa using hpc) j _
              exact l.reqQuiet_of_net (by simp) (by simp) (by simp [Client.peer])
                (by simp [Shared.hub]) (by simp)

/-- A new connection goes into the pool, and the request on. -/
theorem gotNewConn_refines {l₀ l : Local} {j : ReqIx} {i : ConnIx} (hq : ReqQuiet l₀ l)
    (hpc₀ : l₀.cl.req.pos = .work) (hpc : l.cl.req.pos = .work) :
    ReqRefines l₀ (l.gotNewConn j i) := by
  have hopen : ((l.connInit i).cl.mem.conns i).stat = .free := by
    simp [connInit, Mem.setConn]
  unfold gotNewConn
  dsimp only
  rw [if_neg (by simp [hopen])]
  refine gotServer_refines _ (hq.trans ?_) hpc₀ (by simpa using hpc) j i
  exact l.reqQuiet_of_net (by simp) (by simp) (by simp [Client.peer, Cxt.poolAdd])
    (by simp [Shared.hub]) (by simp)

/-- A new connection changes the handler table only. -/
theorem newConn_quiet (l : Local) (fd : Fd) (ep : Endpoint) (ok : Bool) :
    ReqQuiet l (l.newConn fd ep ok) :=
  l.reqQuiet_of (by simp) (by simp) (by simp [Client.peer]) (by simp [Shared.hub])
    (l.sheds_newConn fd ep ok)

/-- A connection is made at once, waited for, or not made. -/
theorem getConn_refines {l l' : Local} {j : ReqIx} {ep : Endpoint} {rps : List AddrInfo}
    {res : ConnectRes} (hpc : l.cl.req.pos = .work) (h : l.getConn j ep rps res = some l') :
    ReqRefines l l' := by
  cases res with
  | fail =>
      simp only [getConn, Option.some.injEq] at h
      subst h
      exact (l.setReqPc_quiet _).refines hpc (.inl rfl)
  | connected fd ok =>
      simp only [getConn] at h
      split at h
      · exact absurd h (by simp)
      · rw [Option.some.injEq] at h
        subst h
        exact gotNewConn_refines (l.newConn_quiet fd ep ok) hpc (by simpa using hpc)
  | inProgress fd ok =>
      simp only [getConn] at h
      split at h
      · exact absurd h (by simp)
      · split at h <;> rw [Option.some.injEq] at h <;> subst h
        · exact l.park_io_refines _ hpc rfl (by simp) (by simp) (by simp [Client.peer])
            (by simp [Shared.hub]) (by simpa using l.sheds_newConn fd ep ok)
        · exact gotNewConn_refines (l.newConn_quiet fd ep ok) hpc (by simpa using hpc)

/-- The wait for a connection is over. -/
theorem connConnected_refines {l : Local} {j : ReqIx} {i : ConnIx} {rps : List AddrInfo}
    {ret : Int} (hpc : l.cl.req.pos = .work) : ReqRefines l (l.connConnected j i rps ret) := by
  unfold connConnected
  split
  · refine ReqQuiet.refines ?_ hpc (.inl rfl)
    exact l.reqQuiet_of (by simp) (by simp) (by simp [Client.peer]) (by simp [Shared.hub])
      (by simpa using l.sheds_connDel i)
  · exact gotNewConn_refines (l.reqQuiet_of_net rfl rfl rfl rfl rfl) hpc hpc

/-- The farewell is posted, unless the response coroutine has left. -/
theorem reqDone_refines {l : Local} (hpc : l.cl.req.pos = .done) : ReqRefines l l.reqDone := by
  unfold reqDone
  dsimp only
  split
  · rename_i h
    exact ⟨rfl, rfl, .skip hpc h⟩
  · rename_i h
    exact ⟨rfl, rfl, .final hpc (Bool.not_eq_true _ ▸ h)⟩

/-- The context is torn down, and the coroutine returns. -/
theorem reqCleanup_refines {l : Local} (hpc : l.cl.req.pos = .cleanup) :
    ReqRefines l l.reqCleanup := by
  refine ⟨by simp [reqCleanup, leave], by simp [reqCleanup, leave], ?_⟩
  have hsheds : Sheds l.sh.net.table l.reqCleanup.sh.net.table := by
    refine Sheds.trans ?_ (sheds_decrefConn _ 0)
    refine Sheds.trans ?_ (sheds_dropList _ _)
    exact l.sheds_dropPool _
  have h := ReqStep.cleanup (c := l.c) (p := l.cl.peer) (h := l.sh.hub)
    (t := l.reqCleanup.sh.net.table) hpc hsheds
  convert h using 1
  · simp [reqCleanup, Client.peer, leave, LinkedQueue.empty, ReqPc.pos]
  · simp [reqCleanup, Shared.hub, leave, Client.peer]

end Local

/-- A step of the request coroutine is one of the protocol. -/
theorem reqStep_refines {l l' : Local} {ch : Choice} (h : reqStep l ch = some l') :
    l.ReqRefines l' := by
  unfold reqStep at h
  split at h <;> rename_i hpc
  · split at h
    · rw [Option.some.injEq] at h
      subst h
      exact (l.setReqPc_quiet _).refines (by rw [hpc]; rfl) (.inr rfl)
    · rw [Option.some.injEq] at h
      subst h
      refine Local.ReqQuiet.refines ?_ (by rw [hpc]; rfl) (.inl rfl)
      exact l.reqQuiet_of_net rfl rfl rfl rfl rfl
  · rw [Option.some.injEq] at h
    subst h
    exact l.reqRet_refines (by rw [hpc]; rfl) _ _
  · obtain ⟨⟨l₁, p'⟩, hio, rfl⟩ := Option.map_eq_some_iff.mp h
    exact Local.ioStep_req_refines (by rw [hpc]; rfl) hio
  · exact Local.dnsLookup_refines (by rw [hpc]; rfl) h
  · split at h
    · rw [Option.some.injEq] at h
      subst h
      exact Local.dnsResolved_refines (by rw [hpc]; rfl) _
    · exact absurd h (by simp)
  · rw [Option.some.injEq] at h
    subst h
    exact Local.tryAddr_refines (by rw [hpc]; rfl)
  · split at h
    · exact Local.getConn_refines (by rw [hpc]; rfl) h
    · exact absurd h (by simp)
  · rw [Option.some.injEq] at h
    subst h
    exact Local.connConnected_refines (by rw [hpc]; rfl)
  · rw [Option.some.injEq] at h
    subst h
    exact Local.reqDone_refines (by rw [hpc]; rfl)
  · rw [Option.some.injEq] at h
    subst h
    exact Local.reqCleanup_refines (by rw [hpc]; rfl)
  all_goals exact absurd h (by simp)

-- ============================================================================
-- The response coroutine
-- ============================================================================

namespace Local

structure RspRefines (l l' : Local) : Prop where
  c : l'.c = l.c
  main : l'.sh.main = l.sh.main
  step : RspStep l.c l.cl.peer l.sh.hub l'.cl.peer l'.sh.hub

theorem raise_refines (l : Local) (f : Fault) : RspRefines l (l.raise f) :=
  ⟨rfl, rfl, .stuck⟩

variable {l : Local}

/-- The head of the loop: leave, sleep, serve the first request, or fault. -/
theorem rspLoop_refines (hpc : l.cl.rsp.pos = .loop) (mem : Nat → Bytes) :
    RspRefines l (l.rspLoop mem) := by
  unfold rspLoop
  split
  · exact ⟨rfl, rfl, .leave hpc⟩
  · split
    · rename_i hhead
      exact ⟨rfl, rfl, .sleep hpc (by simp [Client.peer, hhead])⟩
    · rename_i hhead
      split
      · exact l.raise_refines _
      · split
        · exact l.raise_refines _
        · split
          · exact l.raise_refines _
          · exact ⟨rfl, rfl, .serve hpc (by simp [Client.peer, hhead])⟩

/-- The handler has returned, and descriptors may have been closed. -/
theorem served_refines {l' : Local} (hpc : l.cl.rsp.pos = .serve) (hc : l'.c = l.c)
    (hmain : l'.sh.main = l.sh.main)
    (hpeer : l'.cl.peer = { l.cl.peer with rsp := .loop, queued := l'.cl.cxt.list.head.isSome })
    (hhub : l'.sh.hub = { l.sh.hub with table := l'.sh.net.table })
    (hsheds : Sheds l.sh.net.table l'.sh.net.table) : RspRefines l l' := by
  refine ⟨hc, hmain, ?_⟩
  rw [hpeer, hhub]
  exact .served hpc hsheds

theorem sheds_rspPop (h : Nat) (e : Entry) :
    Sheds l.sh.net.table (l.rspPop h e).sh.net.table := by
  simpa [rspPop] using l.sheds_decrefConn e.server

/-- A served request is popped, or its handler called again. -/
theorem rspServed_refines (hpc : l.cl.rsp.pos = .serve) (h : Nat) (e : Entry) (ret : Int) :
    RspRefines l (l.rspServed h e ret) := by
  unfold rspServed
  dsimp only
  split
  · exact l.raise_refines _
  · split
    · split
      · exact l.raise_refines _
      · refine served_refines hpc (by simp [rspPop]) (by simp [rspPop]) ?_ ?_ ?_
        · simp [rspPop, Client.peer, Cxt.poolDel, RspPc.pos]
        · simp [rspPop, Shared.hub]
        · refine Sheds.trans ?_ (sheds_rspPop h e)
          exact sheds_decrefConn { l with cl.cxt := l.cl.cxt.poolDel _ } _
    · split
      · exact served_refines hpc rfl rfl rfl rfl (Sheds.refl _)
      · refine served_refines hpc (by simp [rspPop]) (by simp [rspPop]) ?_ ?_ (sheds_rspPop h e)
        · simp [rspPop, Client.peer, RspPc.pos]
        · simp [rspPop, Shared.hub]

/-- A step of a response handler is quiet, or the coroutine waits. -/
theorem ioStep_rsp_refines {l' : Local} {srv : ConnIx} {ch : Choice} {h : Nat} {e : Entry}
    {p p' : Io Int} (hpc : l.cl.rsp.pos = .serve)
    (hs : l.ioStep .rsp srv ch p = some (l', p')) : RspRefines l (l'.setRspPc (.serve h e p')) := by
  rcases ioStep_cases hs with hq | ⟨r, d, _, -, rfl, rfl⟩
  · have hpeer : (l'.setRspPc (.serve h e p')).cl.peer = l.cl.peer := by
      simp [Client.peer, hq.cxt, hq.req, hq.reqWait, hq.rspWait, hpc]
      rfl
    have hhub : (l'.setRspPc (.serve h e p')).sh.hub
        = { l.sh.hub with table := l'.sh.net.table } := by
      simp [Shared.hub, hq.ev, hq.callCxt, hq.main, hq.dns]
    refine ⟨hq.c, hq.main, ?_⟩
    rw [hpeer, hhub]
    exact .go hpc hq.sheds
  · have hpeer :
        ((l.park .rsp (.io (l.cl.mem.conns (r.ix srv)).fd d)).setRspPc (.serve h e p')).cl.peer
        = { l.cl.peer with rspWait := some (.io (l.cl.mem.conns (r.ix srv)).fd d) } := by
      simp [Client.peer, park, Client.setWait, hpc]
      rfl
    refine ⟨rfl, rfl, ?_⟩
    rw [hpeer]
    refine .block hpc ⟨?_, ?_⟩
    · intro fd' d' y hy
      rcases l.sh.net.registered_netPullSetHandler hy with h | ⟨h₁, h₂, h₃⟩
      · exact .inl h.1
      · simp only [Option.some.injEq, Handler.co.injEq] at h₃
        exact .inr ⟨h₁, h₂, h₃.symm⟩
    · exact (l.sh.net.tableOk_netPullSetHandler _ d _).mpr

/-- The response coroutine tells a blocked peer, frees its id and returns. -/
theorem rspExit_refines (hpc : l.cl.rsp.pos = .exit) : RspRefines l l.rspExit := by
  have hnet : Sheds l.sh.net.table l.rspExit.sh.net.table := by
    refine Sheds.trans ?_ (sheds_decrefConn _ 0)
    dsimp only
    split <;> exact Sheds.refl _
  have h := RspStep.exit (c := l.c) (p := l.cl.peer) (h := l.sh.hub)
    (t := l.rspExit.sh.net.table) hpc hnet
  cases hb : l.cl.cxt.reqBlocked <;> refine ⟨by simp [rspExit, leave, hb],
    by simp [rspExit, leave, hb], ?_⟩ <;> convert h using 1 <;>
    simp [rspExit, Client.peer, Shared.hub, leave, RspPc.pos, hb]

end Local

/-- A step of the response coroutine is one of the protocol. -/
theorem rspStep_refines {l l' : Local} {ch : Choice} (h : rspStep l ch = some l') :
    l.RspRefines l' := by
  unfold rspStep at h
  split at h
  · rw [Option.some.injEq] at h
    exact h ▸ l.raise_refines _
  · split at h <;> rename_i hpc
    · rw [Option.some.injEq] at h
      subst h
      exact Local.rspLoop_refines (by rw [hpc]; rfl) _
    · rw [Option.some.injEq] at h
      subst h
      exact Local.rspServed_refines (by rw [hpc]; rfl) _ _ _
    · obtain ⟨⟨l₁, p'⟩, hio, rfl⟩ := Option.map_eq_some_iff.mp h
      exact Local.ioStep_rsp_refines (by rw [hpc]; rfl) hio
    · rw [Option.some.injEq] at h
      subst h
      exact Local.rspExit_refines (by rw [hpc]; rfl)
    all_goals exact absurd h (by simp)

-- ============================================================================
-- The main loop
-- ============================================================================

/-- A dispatch loop in the middle of a batch. -/
def Main.InBatch : Main → Prop
  | .next _ => True
  | .callRead _ _ _ => True
  | .callWrite _ _ _ => True
  | _ => False

/-- The accept and DNS handlers are called from a dispatch loop. -/
def Main.Ok : Main → Prop
  | .accept _ k => k.InBatch
  | .dnsRead k => k.InBatch
  | _ => True

theorem Main.InBatch.ok {m : Main} (h : m.InBatch) : m.Ok := by
  cases m <;> first | exact trivial | exact h.elim

/-- In a batch the main loop is neither behind an event nor at its end. -/
theorem Main.InBatch.ne {m : Main} (h : m.InBatch) : m ≠ .eventRet ∧ m ≠ .exited := by
  cases m <;> simp_all [Main.InBatch]

namespace World

variable {w w' : World}

theorem notify_setClient (w : World) (c : ClientId) (cl : Client) :
    (w.setClient c cl).notify = w.notify.setPeer c cl.peer := by
  have : (fun c' => (Function.update w.clients c (some cl) c').map Client.peer)
      = Function.update (fun c' => (w.clients c').map Client.peer) c (some cl.peer) := by
    funext c'
    by_cases h : c' = c
    · subst h
      simp
    · simp [Function.update_of_ne h]
  simp only [setClient, notify, State.setPeer, this]

/-- Writing back what is there changes nothing. -/
theorem setPeer_self {s : State} {c : ClientId} {p : Peer} (h : s.peers c = some p) :
    s.setPeer c p = s := by
  simp [State.setPeer, ← h]

/-- A step that keeps the image of the clients, and of the hub but for shed
    registrations. -/
theorem main_refines (hp : w'.notify.peers = w.notify.peers) (hn : w'.nclients = w.nclients)
    (hhub : w'.sh.hub = { w.sh.hub with table := w'.sh.net.table })
    (hsheds : Sheds w.sh.net.table w'.sh.net.table) : Step w.notify w'.notify := by
  have h : w'.notify = ⟨w.notify.peers, w.nclients, w'.sh.hub⟩ := by
    rw [← hp, ← hn]
    rfl
  rw [h, hhub]
  exact .main hsheds

/-- Resuming a coroutine is resuming it in the protocol. -/
theorem peer_resume (cl : Client) (side : Side) (ret : Int) :
    (cl.resume side ret).peer = cl.peer.resume ret side := by
  cases side with
  | req =>
      cases h : cl.req <;>
        simp [Client.resume, Client.resumeReq, Client.peer, Peer.resume, h, ReqPc.pos]
  | rsp =>
      by_cases hret : ret = 0 <;> cases h : cl.rsp <;>
        simp [Client.resume, Client.resumeRsp, Client.peer, Peer.resume, h, RspPc.pos, hret]

theorem peer_isFinished (cl : Client) (side : Side) :
    cl.peer.isFinished side = cl.isFinished side := by
  cases side with
  | req => cases h : cl.req <;> simp [Client.isFinished, Client.peer, Peer.isFinished, h, ReqPc.pos]
  | rsp => cases h : cl.rsp <;> simp [Client.isFinished, Client.peer, Peer.isFinished, h, RspPc.pos]

/-- The main loop wakes a coroutine, or finds that it has gone. -/
theorem asyncResume_refines {x : Co} {ret : Int} {m : Main} (h' : Hub)
    (hwake : ∀ p, w.notify.peers x.client = some p → p.isFinished x.side = false →
      Step w.notify { w.notify.setPeer x.client (p.resume ret x.side) with hub := h' })
    (hh : h' = { w.sh with main := m, callCxt := some x }.hub) :
    Step w.notify (w.asyncResume x ret m).notify := by
  have hfault : Step w.notify { w with sh := w.sh.raise .useAfterFree }.notify :=
    main_refines rfl rfl rfl (Sheds.refl _)
  unfold asyncResume
  split
  · exact hfault
  · rename_i cl hcl
    split
    · exact hfault
    · rename_i hfin
      have h := hwake cl.peer (by simp [notify, hcl])
        (by rw [peer_isFinished]; exact Bool.not_eq_true _ ▸ hfin)
      rw [← peer_resume, ← notify_setClient, hh] at h
      exact h

/-- conn_err_handler is not noticed by the protocol. -/
theorem connErr_refines (t : ClientId × ConnIx) :
    (w.connErr t).notify = w.notify ∧ (w.connErr t).sh.main = w.sh.main ∧
      (w.connErr t).sh.net = w.sh.net := by
  unfold connErr
  split
  · exact ⟨rfl, rfl, rfl⟩
  · rename_i cl hcl
    split
    · exact ⟨rfl, rfl, rfl⟩
    · refine ⟨?_, rfl, rfl⟩
      rw [notify_setClient]
      exact setPeer_self (by simp [notify, hcl, Client.peer])

/-- The call a handler stands for. -/
def handlerCalls (fd : Fd) (d : Dir) : Handler → List (Fd × Dir × Co)
  | .co x => [(fd, d, x)]
  | _ => []

theorem hub_setMain (w : World) (m : Main) (hm : m ≠ .eventRet ∧ m ≠ .exited)
    (hw : w.sh.main ≠ .eventRet ∧ w.sh.main ≠ .exited) (hcalls : m.calls = w.sh.main.calls) :
    (w.setMain m).sh.hub = w.sh.hub := by
  simp [setMain, Shared.hub, hm.1, hm.2, hw.1, hw.2, hcalls]

/-- A handler is called: a coroutine is resumed, or the protocol goes on as it was. -/
theorem callHandler_refines {h : Handler} {ev : EpollEvent} {k : Main} {d : Dir}
    (hrun : w.sh.callCxt = none) (hw : w.sh.main ≠ .eventRet ∧ w.sh.main ≠ .exited)
    (hk : k.InBatch) (hcalls : w.sh.main.calls = handlerCalls ev.fd d h ++ k.calls) :
    Step w.notify (w.callHandler h ev k).notify := by
  have hin : w.sh.hub.inEvent = false := by simp [Shared.hub, hw.1]
  cases h with
  | co x =>
      refine asyncResume_refines { w.sh.hub with running := some x, pend := k.calls }
        (fun p hp hfin => .wakeIo hrun hin (by simp [notify, Shared.hub, hw.2]) hcalls hp hfin) ?_
      simp [Shared.hub, hk.ne.1, hk.ne.2, hw.1, hw.2]
  | accept sfd =>
      simp only [callHandler]
      split
      · refine main_refines rfl rfl ?_ (Net.sheds_netPullDel _ _)
        simp [setMain, Shared.hub, hk.ne.1, hk.ne.2, hw.1, hw.2, hcalls, handlerCalls]
      · refine main_refines rfl rfl ?_ (Net.sheds_netPullSetHandler _ (by simp))
        simp [setMain, Shared.hub, hw.1, hw.2, hcalls, handlerCalls, Main.calls]
  | dns =>
      refine main_refines rfl rfl ?_ (Net.sheds_netPullSetHandler _ (by simp))
      simp [callHandler, setMain, Shared.hub, hw.1, hw.2, hcalls, handlerCalls, Main.calls]

/-- An accepted connection is a new peer, with its two ids and first events. -/
theorem acceptConn_refines {fd : Fd} {ep : Endpoint} {ok : Bool} (hrun : w.sh.callCxt = none)
    (hw : w.sh.main ≠ .eventRet ∧ w.sh.main ≠ .exited) :
    Step w.notify (w.acceptConn fd ep ok).notify := by
  have hsheds : Sheds w.sh.net.table (w.acceptConn fd ep ok).sh.net.table :=
    (w.sh.net.sysOpen fd _).sheds_netPullAdd ok fd _
  have h := Step.accept (s := w.notify)
    (t := (w.acceptConn fd ep ok).sh.net.table)
    hrun (by simp [notify, Shared.hub, hw.1]) (by simp [notify, Shared.hub, hw.2]) hsheds
  have hpeers : (fun c => ((w.acceptConn fd ep ok).clients c).map Client.peer)
      = Function.update (fun c => (w.clients c).map Client.peer) w.nclients
        (some (Peer.new w.sh.ev)) := by
    funext c
    by_cases hc : c = w.nclients
    · subst hc
      simp [acceptConn, newClient, Client.peer, Peer.new, LinkedQueue.empty, ReqPc.pos, RspPc.pos]
    · simp [acceptConn, Function.update_of_ne hc]
  convert h using 1
  simp only [notify, hpeers]
  rfl

theorem notify_setMain (w : World) (m : Main) :
    (w.setMain m).notify = { w.notify with hub := { w.notify.hub with
      inEvent := decide (m = .eventRet)
      exited := decide (m = .exited)
      pend := m.calls } } :=
  rfl

/-- The main loop moves on; no coroutine is concerned. -/
theorem setMain_refines {m : Main} (hw : w.sh.main ≠ .eventRet ∧ w.sh.main ≠ .exited)
    (hm : m ≠ .eventRet ∧ m ≠ .exited) (hcalls : m.calls = w.sh.main.calls) :
    Step w.notify (w.setMain m).notify :=
  main_refines rfl rfl (by rw [hub_setMain w m hm hw hcalls]; rfl) (Sheds.refl _)

/-- Both handlers of one descriptor are taken out of the table. -/
theorem take_refines {ev : EpollEvent} {nh : PullEnt} {evs : List EpollEvent}
    (hrun : w.sh.callCxt = none) (hmain : w.sh.main = .next (.batch (ev :: evs)))
    (hnh : w.sh.net.pullFind ev.fd = some nh) :
    Step w.notify { w.notify with hub := { w.notify.hub with
      table := ((w.sh.net.netPullSetHandler ev.fd .read none).netPullSetHandler ev.fd .write
        none).table
      pend := nh.calls } } := by
  obtain ⟨hmem, hfd⟩ := Net.mem_of_pullFind hnh
  have hr : Sheds w.sh.net.table (w.sh.net.netPullSetHandler ev.fd .read none).table :=
    w.sh.net.sheds_netPullSetHandler (by simp)
  have hw : Sheds (w.sh.net.netPullSetHandler ev.fd .read none).table
      ((w.sh.net.netPullSetHandler ev.fd .read none).netPullSetHandler ev.fd .write none).table :=
    Net.sheds_netPullSetHandler _ (by simp)
  refine .take (e := nh) hrun (by simp [notify, Shared.hub, hmain])
    (by simp [notify, Shared.hub, hmain, Main.calls, Todo.calls]) hmem (hr.trans hw) ?_
  intro d x hx
  rw [hfd] at hx
  rcases Net.registered_netPullSetHandler _ hx with ⟨h, hd⟩ | ⟨-, -, h⟩
  · rcases Net.registered_netPullSetHandler _ h with ⟨-, hd'⟩ | ⟨-, -, h⟩
    · cases d
      · exact hd' ⟨rfl, rfl⟩
      · exact hd ⟨rfl, rfl⟩
    · exact absurd h (by simp)
  · exact absurd h (by simp)

theorem notify_connErr (w : World) (o : Option (ClientId × ConnIx)) :
    ((o.map w.connErr).getD w).notify = w.notify := by
  cases o with
  | none => rfl
  | some t => exact (connErr_refines t).1

/-- The head of a dispatch loop. -/
theorem nextTodo_refines {t : Todo} (hrun : w.sh.callCxt = none) (hmain : w.sh.main = .next t) :
    Step w.notify (w.nextTodo t).notify := by
  have hw : w.sh.main ≠ .eventRet ∧ w.sh.main ≠ .exited := by simp [hmain]
  have hin : w.notify.hub.inEvent = false ∧ w.notify.hub.exited = false := by
    simp [notify, Shared.hub, hmain]
  have hpend : w.notify.hub.pend = t.calls := by
    simp [notify, Shared.hub, hmain, Main.calls]
  cases t with
  | batch evs =>
      cases evs with
      | nil => exact setMain_refines hw (by simp) (by rw [hmain]; rfl)
      | cons ev evs =>
          rw [nextTodo]
          split
          · exact setMain_refines hw (by simp) (by rw [hmain]; rfl)
          · rename_i nh hnh
            have hfd := (Net.mem_of_pullFind hnh).2
            have hcalls : (Main.callRead ev nh (.batch evs)).calls = nh.calls := by
              simp [Main.calls, PullEnt.calls, Todo.calls, hfd]
            have h := take_refines hrun hmain hnh
            convert h using 1
            rw [notify_setMain, hcalls]
            dsimp only
            split
            · rw [notify_connErr]
              simp [notify, Shared.hub, hmain]
            · simp [notify, Shared.hub, hmain]
  | done ents =>
      cases ents with
      | nil => exact setMain_refines hw (by simp) (by rw [hmain]; rfl)
      | cons nh ents =>
          have hcalls : (Main.callRead ⟨nh.fd, true⟩ nh (.done ents)).calls
              = w.notify.hub.pend := by
            rw [hpend]
            simp [Main.calls, PullEnt.calls, Todo.calls]
          have h : Step w.notify w.notify := main_refines rfl rfl rfl (Sheds.refl _)
          convert h using 1
          rw [nextTodo, notify_setMain, notify_connErr, hcalls]
          simp [notify, Shared.hub, hmain]

/-- proxy_done copies the table and clears it. -/
theorem proxyDone_refines (hrun : w.sh.callCxt = none) (hmain : w.sh.main = .epollWait) :
    Step w.notify w.proxyDone.notify := by
  have h := Step.takeAll (s := w.notify) hrun (by simp [notify, Shared.hub, hmain])
    (by simp [notify, Shared.hub, hmain, Main.calls])
  convert h using 1
  simp [proxyDone, notify, Shared.hub, hmain, Main.calls, Todo.calls]

/-- The head event is dispatched, or the queue is empty. -/
theorem eventWork_refines (hrun : w.sh.callCxt = none) (hmain : w.sh.main = .eventWork) :
    Step w.notify w.eventWork.notify := by
  have hw : w.sh.main ≠ .eventRet ∧ w.sh.main ≠ .exited := by simp [hmain]
  have hin : w.notify.hub.inEvent = false := by simp [notify, Shared.hub, hmain]
  unfold eventWork
  split
  · rename_i hq
    split
    · exact setMain_refines hw (by simp) (by rw [hmain]; rfl)
    · have h := Step.exit (s := w.notify) hrun hin hq
      convert h using 1
      simp [notify, Shared.hub, setMain, hmain, Main.calls]
  · rename_i eid d q hq
    split
    · rename_i hnone
      have h := Step.noHandler (s := w.notify) hrun hin hq hnone
      convert h using 1
      simp [notify, Shared.hub, setMain, hmain, Main.calls]
    · rename_i x hx
      refine asyncResume_refines { w.notify.hub with inEvent := true, running := some x }
        (fun p hp hfin => .wakeEvent hrun hin hq hx hp hfin) ?_
      simp [notify, Shared.hub, hmain, Main.calls]

/-- One step of the main loop, by where it is. -/
theorem mainStep_refines {ch : Choice} (hrun : w.sh.callCxt = none) (hok : w.sh.main.Ok)
    (h : w.mainStep ch = some w') : Step w.notify w'.notify := by
  unfold mainStep at h
  split at h <;> rename_i hmain
  · rw [Option.some.injEq] at h
    exact h ▸ eventWork_refines hrun hmain
  · rw [Option.some.injEq] at h
    subst h
    have h := Step.eventRet (s := w.notify) hrun (by simp [notify, Shared.hub, hmain])
    convert h using 1
    simp [notify, Shared.hub, setMain, hmain, Main.calls]
  · unfold epollWait at h
    split at h
    · split at h
      · rw [Option.some.injEq] at h
        exact h ▸ proxyDone_refines hrun hmain
      · split at h
        · rw [Option.some.injEq] at h
          exact h ▸ setMain_refines (by simp [hmain]) (by simp) (by rw [hmain]; rfl)
        · exact absurd h (by simp)
    · rw [Option.some.injEq] at h
      exact h ▸ proxyDone_refines hrun hmain
    · exact absurd h (by simp)
  · rw [Option.some.injEq] at h
    exact h ▸ nextTodo_refines hrun hmain
  · split at h
    · rename_i hrd
      rw [Option.some.injEq] at h
      refine h ▸ setMain_refines (by simp [hmain]) (by simp) ?_
      simp [hmain, Main.calls, PullEnt.co, hrd]
    · rename_i hd hrd
      rw [Option.some.injEq] at h
      refine h ▸ callHandler_refines (d := .read) hrun (by simp [hmain]) trivial ?_
      rw [hmain]
      cases hd <;> simp [Main.calls, PullEnt.co, hrd, handlerCalls]
  · split at h
    · rename_i hwr
      rw [Option.some.injEq] at h
      refine h ▸ setMain_refines (by simp [hmain]) (by simp) ?_
      simp [hmain, Main.calls, PullEnt.co, hwr]
    · rename_i hd hwr
      rw [Option.some.injEq] at h
      refine h ▸ callHandler_refines (d := .write) hrun (by simp [hmain]) trivial ?_
      rw [hmain]
      cases hd <;> simp [Main.calls, PullEnt.co, hwr, handlerCalls]
  · rw [hmain] at hok
    split at h
    · rw [Option.some.injEq] at h
      exact h ▸ setMain_refines (by simp [hmain]) hok.ne (by rw [hmain]; rfl)
    · split at h
      · exact absurd h (by simp)
      · rw [Option.some.injEq] at h
        exact h ▸ acceptConn_refines hrun (by simp [hmain])
    · exact absurd h (by simp)
  · rw [hmain] at hok
    split at h
    · rename_i hsig
      rw [Option.some.injEq] at h
      subst h
      exact Step.dnsRead (s := w.notify) hrun (by simp [notify, Shared.hub, hmain]) hsig
    · rw [Option.some.injEq] at h
      exact h ▸ setMain_refines (by simp [hmain]) hok.ne (by rw [hmain]; rfl)
  · exact absurd h (by simp)

/-- A coroutine is resumed from where the main loop may be, to where it may go on. -/
theorem asyncResume_ok {x : Co} {ret : Int} {m : Main} (hok : w.sh.main.Ok) (hm : m.Ok) :
    (w.asyncResume x ret m).sh.main.Ok := by
  unfold asyncResume
  split
  · exact hok
  · split
    · exact hok
    · exact hm

theorem callHandler_ok {h : Handler} {ev : EpollEvent} {k : Main} (hok : w.sh.main.Ok)
    (hk : k.InBatch) : (w.callHandler h ev k).sh.main.Ok := by
  cases h with
  | co x => exact asyncResume_ok hok hk.ok
  | accept sfd =>
      simp only [callHandler]
      split
      · exact hk.ok
      · exact hk
  | dns => exact hk

/-- The accept and DNS handlers stay inside their batch. -/
theorem mainStep_ok {ch : Choice} (hok : w.sh.main.Ok) (h : w.mainStep ch = some w') :
    w'.sh.main.Ok := by
  unfold mainStep at h
  split at h <;> rename_i hmain
  · rw [Option.some.injEq] at h
    subst h
    unfold eventWork
    split
    · split <;> exact trivial
    · split
      · exact trivial
      · exact asyncResume_ok hok trivial
  · rw [Option.some.injEq] at h
    exact h ▸ trivial
  · unfold epollWait at h
    split at h
    · split at h
      · rw [Option.some.injEq] at h
        exact h ▸ trivial
      · split at h
        · rw [Option.some.injEq] at h
          exact h ▸ trivial
        · exact absurd h (by simp)
    · rw [Option.some.injEq] at h
      exact h ▸ trivial
    · exact absurd h (by simp)
  · rw [Option.some.injEq] at h
    subst h
    unfold nextTodo
    split
    · exact trivial
    · split <;> exact trivial
    · exact trivial
    · exact trivial
  · split at h
    · rw [Option.some.injEq] at h
      exact h ▸ trivial
    · rw [Option.some.injEq] at h
      exact h ▸ callHandler_ok hok trivial
  · split at h
    · rw [Option.some.injEq] at h
      exact h ▸ trivial
    · rw [Option.some.injEq] at h
      exact h ▸ callHandler_ok hok trivial
  · rw [hmain] at hok
    split at h
    · rw [Option.some.injEq] at h
      exact h ▸ Main.InBatch.ok hok
    · split at h
      · exact absurd h (by simp)
      · rw [Option.some.injEq] at h
        subst h
        exact (congrArg Main.Ok hmain).mpr hok
    · exact absurd h (by simp)
  · split at h
    · rw [Option.some.injEq] at h
      subst h
      exact (congrArg Main.Ok hmain).mpr (hmain ▸ hok)
    · rw [Option.some.injEq] at h
      rw [hmain] at hok
      exact h ▸ Main.InBatch.ok hok
  · exact absurd h (by simp)

/-- A lookup that completes raises the signal. -/
theorem dnsDone_refines {eid : EventId} (h : w.dnsDone eid = some w') :
    Step w.notify w'.notify ∧ w'.sh.main = w.sh.main := by
  unfold dnsDone at h
  split at h
  · rename_i hmem
    rw [Option.some.injEq] at h
    subst h
    exact ⟨.dnsDone hmem, rfl⟩
  · exact absurd h (by simp)

theorem notify_setClient_sh (w : World) (c : ClientId) (cl : Client) (sh : Shared) :
    { w.setClient c cl with sh }.notify = { w.notify.setPeer c cl.peer with hub := sh.hub } := by
  rw [← notify_setClient]
  rfl

/-- A step of the proxy is one of the notification protocol. -/
theorem step_refines {ch : Choice} (hok : w.sh.main.Ok) (h : w.step ch = some w') :
    Step w.notify w'.notify ∧ w'.sh.main.Ok := by
  rcases step_cases h with ⟨eid, h⟩ | ⟨hrun, h⟩ | ⟨⟨c, side⟩, cl, l', hrun, hcl, hl', rfl⟩
  · obtain ⟨hs, hm⟩ := dnsDone_refines h
    exact ⟨hs, hm ▸ hok⟩
  · exact ⟨mainStep_refines hrun hok h, mainStep_ok hok h⟩
  · have hp : w.notify.peers c = some cl.peer := by simp [notify, hcl]
    rw [notify_setClient_sh]
    cases side with
    | req =>
        have hr := reqStep_refines hl'
        exact ⟨.req hrun hp hr.step, hr.main ▸ hok⟩
    | rsp =>
        have hr := rspStep_refines hl'
        exact ⟨.rsp hrun hp hr.step, hr.main ▸ hok⟩

end World
end HttpProxy
