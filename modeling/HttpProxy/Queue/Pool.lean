/-
  HttpProxy.Queue.Pool

  The server pool of a client (`cxt->pool`).  A queued request's server is in the
  pool under its endpoint (`PoolOk`) as long as no connection is evicted that
  another queued request uses, and none is appended for one that has been; then
  what the response coroutine removes is there, and is its own
  (`removal_defined`).
-/

import HttpProxy.Queue.Range
import HttpProxy.Notify.Context

namespace HttpProxy

open Lib Notify

-- ============================================================================
-- The invariant
-- ============================================================================

/-- The endpoint a connection is being made to. -/
def Client.seeks (cl : Client) : Option Endpoint :=
  match cl.req with
  | .getConn _ ep _ => some ep
  | _ => cl.req.making.map cl.mem.eps

/-- Every connection in the pool is under its endpoint, and the servers of queued requests are in
    the pool. -/
structure Pooled (cl : Client) : Prop where
  keys : ∀ t ∈ cl.cxt.pool, t.2 < cl.mem.nconn ∧ cl.mem.eps t.2 = t.1
  nodup : (cl.cxt.pool.map (·.1)).Nodup
  queued : ∀ e ∈ cl.queued, (cl.mem.eps e.server, e.server) ∈ cl.cxt.pool

/-- A connection is only made to an endpoint that is not in the pool. -/
structure PoolOk (cl : Client) : Prop extends Pooled cl where
  seeks : ∀ ep, cl.seeks = some ep → ∀ t ∈ cl.cxt.pool, t.1 ≠ ep
  making : ∀ i, cl.req.making = some i → i < cl.mem.nconn

/-- The coroutine about to make a step does not evict a connection that another queued request
    uses, nor append a request for one that has been evicted. -/
def Local.keepsPool (side : Side) (l : Local) (_ : Choice) : Bool :=
  match side with
  | .req =>
      match l.cl.req with
      | .addrs j (rp :: _) =>
          l.sh.mainStat = .exiting || rp.family = .other ||
            (l.cl.cxt.poolFind (l.endpointOf j rp)).all fun s =>
              (l.cl.mem.conns s).stat ≠ .closed || l.cl.queued.all (·.server ≠ s)
      | .io (.forward _ s _) (.ret ret) =>
          ret ≠ 0 || l.cl.cxt.poolFind (l.cl.mem.conns s).ep = some s
      | _ => true
  | .rsp =>
      match l.cl.rsp with
      | .serve _ e (.ret _) =>
          (l.cl.mem.conns e.server).stat ≠ .closed || l.cl.queued.tail.all (·.server ≠ e.server)
      | _ => true

/-- Steps that keep the servers of queued requests in the pool. -/
def World.poolOk (w : World) (ch : Choice) : Bool := w.idsLeft && w.coOk Local.keepsPool ch

section

variable {l l' : Local} {cl cl' : Client}

/-- The pool stays, and so does the queue, or it loses something. -/
theorem Pooled.same (h : Pooled l.cl) (hpool : l'.cl.cxt.pool = l.cl.cxt.pool)
    (heps : l.SameEps l') (hqueued : ∀ e ∈ l'.cl.queued, e ∈ l.cl.queued) : Pooled l'.cl := by
  constructor
  · rw [hpool, heps.1, heps.2]
    exact h.keys
  · rw [hpool]
    exact h.nodup
  · intro e he
    rw [hpool, heps.2]
    exact h.queued e (hqueued e he)

theorem PoolOk.same (h : PoolOk l.cl) (hpool : l'.cl.cxt.pool = l.cl.cxt.pool)
    (heps : l.SameEps l') (hqueued : ∀ e ∈ l'.cl.queued, e ∈ l.cl.queued)
    (hseeks : l'.cl.seeks = none ∨ l'.cl.seeks = l.cl.seeks)
    (hmaking : l'.cl.req.making = none ∨ l'.cl.req.making = l.cl.req.making) : PoolOk l'.cl := by
  refine ⟨h.toPooled.same hpool heps hqueued, ?_, ?_⟩
  · intro ep hep
    rw [hpool]
    rcases hseeks with hnone | hsame
    · exact absurd (hnone.symm.trans hep) (by simp)
    · exact h.seeks ep (hsame ▸ hep)
  · intro i hi
    rw [heps.1]
    rcases hmaking with hnone | hsame
    · exact absurd (hnone.symm.trans hi) (by simp)
    · exact h.making i (hsame ▸ hi)

/-- No connection is being made. -/
theorem PoolOk.of_pooled (h : Pooled cl) (hseeks : cl.seeks = none) : PoolOk cl := by
  refine ⟨h, fun ep hep => absurd (hseeks.symm.trans hep) (by simp), fun i hi => ?_⟩
  unfold Client.seeks at hseeks
  split at hseeks
  · exact absurd hseeks (by simp)
  · rw [hi] at hseeks
    exact absurd hseeks (by simp)

/-- A request is queued whose server is in the pool. -/
theorem Pooled.append (h : Pooled l.cl) (hfifo : Fifo l.cl) {e : Entry}
    (hmem : (l.cl.mem.eps e.server, e.server) ∈ l.cl.cxt.pool)
    (hpool : l'.cl.cxt.pool = l.cl.cxt.pool) (heps : l.SameEps l')
    (hlist : l'.cl.cxt.list = l.cl.cxt.list.push e) : Pooled l'.cl := by
  have hqueued := queued_push hfifo hlist
  constructor
  · rw [hpool, heps.1, heps.2]
    exact h.keys
  · rw [hpool]
    exact h.nodup
  · intro e' he'
    rw [hpool, heps.2]
    rw [hqueued, List.mem_append, List.mem_singleton] at he'
    rcases he' with he' | rfl
    · exact h.queued e' he'
    · exact hmem

/-- A connection no queued request uses leaves the pool. -/
theorem PoolOk.evict (h : PoolOk l.cl) {s : ConnIx}
    (hkeep : ∀ e ∈ l'.cl.queued, e ∈ l.cl.queued ∧ e.server ≠ s)
    (hmem : (l.cl.mem.eps s, s) ∈ l.cl.cxt.pool)
    (hpool : l'.cl.cxt.pool = (l.cl.cxt.poolDel (l.cl.mem.eps s)).pool) (heps : l.SameEps l')
    (hseeks : l'.cl.seeks = some (l.cl.mem.eps s) ∨ l'.cl.seeks = l.cl.seeks)
    (hmaking : l'.cl.req.making = none ∨ l'.cl.req.making = l.cl.req.making) : PoolOk l'.cl := by
  have hmem' (t : Endpoint × ConnIx) : t ∈ l'.cl.cxt.pool ↔
      t ∈ l.cl.cxt.pool ∧ t.1 ≠ l.cl.mem.eps s := by
    rw [hpool]
    exact Cxt.mem_poolDel h.nodup
  refine ⟨⟨?_, ?_, ?_⟩, ?_, ?_⟩
  · intro t ht
    rw [heps.1, heps.2]
    exact h.keys t ((hmem' t).mp ht).1
  · rw [hpool]
    exact Cxt.nodup_poolDel h.nodup
  · intro e he
    obtain ⟨he, hne⟩ := hkeep e he
    rw [hmem', heps.2]
    refine ⟨h.queued e he, fun heq => hne ?_⟩
    have hinj := List.inj_on_of_nodup_map h.nodup (h.queued e he) hmem heq
    rw [Prod.mk.injEq] at hinj
    exact hinj.2
  · intro ep hep t ht
    obtain ⟨ht, hne⟩ := (hmem' t).mp ht
    rcases hseeks with hs | hsame
    · rw [← Option.some.inj (hs.symm.trans hep)]
      exact hne
    · exact h.seeks ep (hsame ▸ hep) t ht
  · intro i hi
    rw [heps.1]
    rcases hmaking with hnone | hsame
    · exact absurd (hnone.symm.trans hi) (by simp)
    · exact h.making i (hsame ▸ hi)

-- ============================================================================
-- The request coroutine
-- ============================================================================

theorem gotServer_poolOk (h : Pooled l.cl) (hfifo : Fifo l.cl) (j : ReqIx) {s : ConnIx}
    (hmem : (l.cl.mem.eps s, s) ∈ l.cl.cxt.pool) : PoolOk (l.gotServer j s).cl := by
  have hgot := l.gotServer_cases j s
  generalize l.gotServer j s = l₂ at hgot ⊢
  cases hgot with
  | http hhttp => exact .of_pooled (h.same rfl (l.withHost_eps j) fun _ he => he) rfl
  | connect hconnect =>
      exact .of_pooled (h.append (e := { server := s, req := j, no := l.cl.hist.seq }) hfifo hmem
        (by simp) (by simp [Local.SameEps]) (by simp)) rfl

/-- A new connection goes into the pool under its endpoint, which is not there. -/
theorem gotNewConn_poolOk (h : Pooled l.cl) (hfifo : Fifo l.cl) (j : ReqIx) {i : ConnIx}
    (hi : i < l.cl.mem.nconn) (hnew : ∀ t ∈ l.cl.cxt.pool, t.1 ≠ l.cl.mem.eps i) :
    PoolOk (l.gotNewConn j i).cl := by
  have heps : l.SameEps ((l.pooled i).increfConn i) := by simp [Local.SameEps]
  have hep : ((l.pooled i).cl.mem.conns i).ep = l.cl.mem.eps i :=
    congrFun (l.pooled_eps i).2 i
  have hpool : ((l.pooled i).increfConn i).cl.cxt.pool =
      l.cl.cxt.pool ++ [(l.cl.mem.eps i, i)] := by
    simp [hep, Cxt.poolAdd]
  have hlist : ((l.pooled i).increfConn i).cl.cxt.list = l.cl.cxt.list := by
    simp [Cxt.poolAdd]
  rw [Local.gotNewConn_eq]
  refine gotServer_poolOk ?_ ?_ j ?_
  · constructor
    · intro t ht
      rw [hpool, List.mem_append, List.mem_singleton] at ht
      rw [heps.1, heps.2]
      rcases ht with ht | rfl
      · exact h.keys t ht
      · exact ⟨hi, rfl⟩
    · rw [hpool]
      exact Cxt.nodup_poolAdd h.nodup hnew
    · intro e he
      rw [Client.queued, hlist] at he
      rw [hpool, heps.2]
      exact List.mem_append_left _ (h.queued e he)
  · exact hfifo.of_same ⟨hlist, by simp, by simp⟩ (by simpa using hfifo.served)
  · rw [hpool, heps.2]
    simp

/-- A new connection leaves the others as they are. -/
theorem newConn_pooled (h : Pooled l.cl) (fd : Fd) (ep : Endpoint) (ok : Bool) :
    Pooled (l.newConn fd ep ok).cl ∧ (l.newConn fd ep ok).cl.mem.eps l.cl.mem.nconn = ep := by
  have hold {i : ConnIx} (hi : i < l.cl.mem.nconn) :
      (l.newConn fd ep ok).cl.mem.eps i = l.cl.mem.eps i := by
    simp [Local.newConn, Mem.eps, Nat.ne_of_lt hi]
  refine ⟨⟨?_, h.nodup, ?_⟩, ?_⟩
  · intro t ht
    obtain ⟨hlt, hkey⟩ := h.keys t ht
    exact ⟨Nat.lt_succ_of_lt hlt, (hold hlt).trans hkey⟩
  · intro e he
    have hmem := h.queued e he
    have hlt : e.server < l.cl.mem.nconn := (h.keys _ hmem).1
    rw [hold hlt]
    exact hmem
  · simp [Local.newConn, Mem.eps]

theorem poolOk_reqStep {ch : Choice} (hok : l.keepsPool .req ch = true) (hfifo : Fifo l.cl)
    (h : PoolOk l.cl) (hs : ReqCase l l') : PoolOk l'.cl := by
  unfold Local.keepsPool at hok
  dsimp only at hok
  cases hs with
  | @io α k p p' l₁ hreq hio =>
      have hcxt : (l₁.setReqPc (.io k p')).cl.cxt = l.cl.cxt := hio.cxt_eq
      refine h.same (by rw [hcxt]) hio.sameEps.1 ?_ (.inl rfl) (.inl rfl)
      intro e he
      rwa [Client.queued, hcxt] at he
  | @forwarded j s head hreq =>
      rw [hreq] at hok
      have hfind : l.cl.cxt.poolFind (l.cl.mem.conns s).ep = some s := by simpa using hok
      refine .of_pooled (h.toPooled.append (e := { server := s, req := j, no := l.cl.hist.seq })
        hfifo (Cxt.mem_of_poolFind hfind) ?_ ?_ ?_) rfl
      · simp
      · simp [Local.SameEps]
      · simp
  | @evict j rp rps s hreq hmain hfamily hfind hstat =>
      have hmem := Cxt.mem_of_poolFind hfind
      have hkey : l.cl.mem.eps s = l.endpointOf j rp := (h.keys _ hmem).2
      have hfree : ∀ e ∈ l.cl.queued, e.server ≠ s := by
        rw [hreq] at hok
        simpa [hmain, hfamily, hfind, hstat] using hok
      rw [← hkey] at hmem ⊢
      refine h.evict ?_ hmem (by simp) (by simp [Local.SameEps]) (.inl rfl) (.inl rfl)
      intro e he
      have he' : e ∈ l.cl.queued := by simpa [Client.queued, Cxt.poolDel] using he
      exact ⟨he', hfree e he'⟩
  | @reuse j rp rps s hreq hfind hstat =>
      have hmem := Cxt.mem_of_poolFind hfind
      have hkey : l.cl.mem.eps s = l.endpointOf j rp := (h.keys _ hmem).2
      rw [← hkey] at hmem
      have heps := l.increfConn_eps s
      refine gotServer_poolOk ?_ ?_ j ?_
      · exact h.toPooled.same (by simp) heps (by simp [Client.queued])
      · exact hfifo.of_same (l.increfConn_frame s).sameList (by simpa using hfifo.served)
      · rw [heps.2]
        simpa using hmem
  | @newConn j ep rps fd ok hreq hfd =>
      have hne : ∀ t ∈ l.cl.cxt.pool, t.1 ≠ ep := h.seeks ep (by simp [Client.seeks, hreq])
      obtain ⟨hpooled, hep⟩ := newConn_pooled h.toPooled fd ep ok
      refine gotNewConn_poolOk hpooled ?_ j ?_ ?_
      · exact hfifo.of_same (l.newConn_frame fd ep ok).sameList hfifo.served
      · exact Nat.lt_succ_self _
      · rw [hep]
        exact hne
  | @connecting j ep rps fd hreq hfd =>
      have hne : ∀ t ∈ l.cl.cxt.pool, t.1 ≠ ep := h.seeks ep (by simp [Client.seeks, hreq])
      obtain ⟨hpooled, hep⟩ := newConn_pooled h.toPooled fd ep true
      refine ⟨hpooled.same rfl ⟨rfl, rfl⟩ fun _ he => he, ?_, ?_⟩
      · intro ep' hep'
        have heq : (l.newConn fd ep true).cl.mem.eps l.cl.mem.nconn = ep' := Option.some.inj hep'
        rw [← heq, hep]
        exact hne
      · intro i hi
        rw [← Option.some.inj hi]
        exact Nat.lt_succ_self _
  | @connected j i rps ret hreq hret =>
      refine gotNewConn_poolOk h.toPooled hfifo j (h.making i ?_) (h.seeks _ ?_)
      · rw [hreq]
        rfl
      · simp [Client.seeks, hreq, ReqPc.making]
  | @notPooled j rp rps hreq hfind =>
      refine ⟨h.toPooled.same rfl ⟨rfl, rfl⟩ fun _ he => he, fun ep hep t ht => ?_,
        fun i hi => absurd hi (by simp [ReqPc.making])⟩
      rw [← Option.some.inj hep]
      exact Cxt.poolFind_eq_none hfind ht
  | cleanup hreq =>
      have hpool : l.reqCleanup.cl.cxt.pool = [] ∧ l.reqCleanup.cl.cxt.list = .empty ∧
          l.reqCleanup.cl.req = .finished := by
        simp [Local.reqCleanup, Local.leave]
      refine .of_pooled ⟨?_, ?_, ?_⟩ ?_
      · rw [hpool.1]
        exact fun t ht => absurd ht (by simp)
      · rw [hpool.1]
        exact List.nodup_nil
      · rw [Client.queued, hpool.2.1, LinkedQueue.cells_empty]
        exact fun e he => absurd he (by simp)
      · rw [Client.seeks, hpool.2.2]
        rfl
  | done hreq =>
      have hdone : l.SameEps l.reqDone ∧ l.reqDone.cl.cxt.pool = l.cl.cxt.pool ∧
          l.reqDone.cl.cxt.list = l.cl.cxt.list ∧ l.reqDone.cl.seeks = none := by
        unfold Local.reqDone
        dsimp only
        split <;> exact ⟨⟨rfl, rfl⟩, rfl, rfl, rfl⟩
      obtain ⟨heps, hpool, hlist, hseeks⟩ := hdone
      refine .of_pooled (h.toPooled.same hpool heps ?_) hseeks
      rw [Client.queued, Client.queued, hlist]
      exact fun _ he => he
  | @resolved j eid res hreq =>
      obtain ⟨rps, hreq'⟩ := (l.dnsResolved_frame j eid res).2.2
      refine .of_pooled
        (h.toPooled.same (by simp) (by simp [Local.SameEps]) (by simp [Client.queued])) ?_
      rw [Client.seeks, hreq']
      rfl
  | noLookup hreq => exact h
  | _ =>
      exact h.same (by simp) (by simp [Local.SameEps]) (by simp [Client.queued]) (.inl rfl)
        (.inl rfl)

-- ============================================================================
-- The response coroutine
-- ============================================================================

/-- Where the request coroutine stays, it seeks what it sought. -/
theorem seeks_eq (heps : l.SameEps l') (hreq : l'.cl.req = l.cl.req) :
    l'.cl.seeks = l.cl.seeks := by
  rw [Client.seeks, Client.seeks, hreq, heps.2]

theorem poolOk_rspStep {ch : Choice} (hok : l.keepsPool .rsp ch = true) (hfifo : Fifo l.cl)
    (h : PoolOk l.cl) (hs : RspCase l l') : PoolOk l'.cl := by
  -- the pool stays, and the queue loses nothing but its head
  have hkeep (hpool : l'.cl.cxt.pool = l.cl.cxt.pool) (heps : l.SameEps l')
      (hqueued : ∀ e ∈ l'.cl.queued, e ∈ l.cl.queued) : PoolOk l'.cl :=
    h.same hpool heps hqueued (.inr (seeks_eq heps hs.req_eq)) (.inr (by rw [hs.req_eq]))
  unfold Local.keepsPool at hok
  dsimp only at hok
  cases hs with
  | @io n e p p' l₁ hdead hrsp hio =>
      have hcxt : (l₁.setRspPc (.serve n e p')).cl.cxt = l.cl.cxt := hio.cxt_eq
      refine hkeep (by rw [hcxt]) hio.sameEps.1 ?_
      rw [Client.queued, Client.queued, hcxt]
      exact fun _ he => he
  | @evict n e ret t hdead hrsp hcnt hstat hfind =>
      have hqueued : l.cl.queued =
          e :: ((l.evicted (l.cl.mem.conns e.server).ep e.server).rspPop n e).cl.queued :=
        hfifo.queued_pop hrsp (live_of_cxtDead hdead) (by simp [Local.rspPop, Cxt.poolDel])
      have hmem := h.queued e (by rw [hqueued]; exact List.mem_cons_self)
      refine h.evict ?_ hmem ?_ ?_ (.inr (seeks_eq ?_ ?_)) (.inr ?_)
      · intro e' he'
        refine ⟨by rw [hqueued]; exact List.mem_cons_of_mem _ he', ?_⟩
        rw [hrsp] at hok
        have hall : ∀ e'' ∈ l.cl.queued.tail, e''.server ≠ e.server := by
          simpa [hstat] using hok
        rw [hqueued] at hall
        exact hall e' he'
      all_goals simp [Local.rspPop, Local.SameEps, Mem.eps]
  | @pop n e ret hdead hrsp hcnt hstat =>
      have hqueued : l.cl.queued = e :: (l.rspPop n e).cl.queued :=
        hfifo.queued_pop hrsp (live_of_cxtDead hdead) (by simp [Local.rspPop])
      refine hkeep (by simp [Local.rspPop]) (by simp [Local.rspPop, Local.SameEps]) ?_
      intro e' he'
      rw [hqueued]
      exact List.mem_cons_of_mem _ he'
  | exit hdead hrsp =>
      have hexit : l.SameEps l.rspExit ∧ l.rspExit.cl.cxt.pool = l.cl.cxt.pool ∧
          l.rspExit.cl.cxt.list = l.cl.cxt.list := by
        unfold Local.rspExit
        dsimp only
        split <;> simp [Local.SameEps, Local.leave]
      obtain ⟨heps, hpool, hlist⟩ := hexit
      refine hkeep hpool heps ?_
      rw [Client.queued, Client.queued, hlist]
      exact fun _ he => he
  | sleep hdead hrsp hhead => exact hkeep rfl ⟨rfl, rfl⟩ fun _ he => he
  | _ => exact hkeep rfl ⟨rfl, rfl⟩ fun _ he => he

/-- A coroutine that is resumed goes on where it waits. -/
theorem poolOk_resume (h : PoolOk cl) (side : Side) (ret : Int) : PoolOk (cl.resume side ret) := by
  cases side with
  | req =>
      show PoolOk (cl.resumeReq ret)
      have hkeep (pc : ReqPc) (b : Bool) (hpc : pc.making = none) (hseek : ∀ j ep rps,
          pc ≠ .getConn j ep rps) :
        PoolOk { cl with req := pc, reqWait := none, cxt.reqBlocked := b } := by
        refine .of_pooled ⟨h.keys, h.nodup, h.queued⟩ ?_
        unfold Client.seeks
        dsimp only
        split
        · exact absurd rfl (hseek _ _ _)
        · rw [hpc]
          rfl
      unfold Client.resumeReq
      dsimp only
      split
      · exact hkeep .loop false rfl (by simp)
      · exact hkeep (.io _ _) _ rfl (by simp)
      · exact hkeep (.resolved _ _) _ rfl (by simp)
      · rename_i j i rps hreq
        refine ⟨⟨h.keys, h.nodup, h.queued⟩, fun ep hep => h.seeks ep ?_, fun k hk => h.making k ?_⟩
        · rw [Client.seeks, hreq]
          exact hep
        · rw [hreq]
          exact hk
      · exact hkeep .cleanup false rfl (by simp)
      · exact ⟨⟨h.keys, h.nodup, h.queued⟩, h.seeks, h.making⟩
  | rsp =>
      show PoolOk (cl.resumeRsp ret)
      unfold Client.resumeRsp
      dsimp only
      split <;> exact ⟨⟨h.keys, h.nodup, h.queued⟩, h.seeks, h.making⟩

end

/-- `conn_err_handler` leaves the endpoints as they are. -/
theorem poolOk_connErr {cl : Client} (h : PoolOk cl) (i : ConnIx) : PoolOk (cl.connErr i) := by
  have heps : (cl.connErr i).mem.eps = cl.mem.eps :=
    cl.mem.setConn_eps i (fun k => { k with stat := .closed }) rfl
  refine ⟨⟨?_, h.nodup, ?_⟩, ?_, h.making⟩
  · rw [heps]
    exact h.keys
  · rw [heps]
    exact h.queued
  · intro ep hep
    refine h.seeks ep ?_
    rw [Client.seeks, heps] at hep
    exact hep

theorem poolOk_new (sh : Shared) (conn : Conn) : PoolOk (World.newClient sh conn) := by
  refine .of_pooled ⟨fun t ht => absurd ht List.not_mem_nil, List.nodup_nil, fun e he => ?_⟩ rfl
  rw [queued_new] at he
  exact absurd he List.not_mem_nil

theorem poolOk_invariant : ClientInvariant Local.keepsPool Fifo PoolOk where
  new := fun sh conn _ _ => poolOk_new sh conn
  req := fun _ _ _ hok _ hfifo h hs => poolOk_reqStep hok hfifo h hs
  rsp := fun _ _ _ hok _ hfifo h hs => poolOk_rspStep hok hfifo h hs
  resume := fun _ side ret _ _ h => poolOk_resume h side ret
  err := fun _ i _ _ h => poolOk_connErr h i

theorem World.poolOk_run {w : World}
    (h : Run World.step (fun w ch => w.poolOk ch = true) World.init w)
    {c : ClientId} {cl : Client} (hcl : w.clients c = some cl) : PoolOk cl := by
  refine client_invariant poolOk_invariant (fun w ch hok => ?_)
    (fun w hr c cl hcl => fifo hr hcl) h hcl
  rw [poolOk, Bool.and_eq_true] at hok
  exact hok.2

-- ============================================================================
-- The removal
-- ============================================================================

/-- The entry `net_rsp_handler` is done with, where it finds `h->server->stat == CONN_CLOSED`. -/
def Client.removing (cl : Client) : Option Entry :=
  match cl.rsp with
  | .serve _ e (.ret _) => if (cl.mem.conns e.server).stat = .closed then some e else none
  | _ => none

theorem removing_eq_some {cl : Client} {e : Entry} (h : cl.removing = some e) :
    ∃ n ret, cl.rsp = .serve n e (.ret ret) := by
  unfold Client.removing at h
  split at h
  · rename_i n e' ret hrsp
    rw [Option.ite_none_right_eq_some] at h
    exact ⟨n, ret, hrsp.trans (by rw [Option.some.inj h.2])⟩
  · exact absurd h (by simp)

/-- When the response coroutine finds the server of an entry closed, what it finds in the pool
    under the endpoint of that server is the server itself. -/
theorem removal_defined {w : World}
    (h : Run World.step (fun w ch => w.poolOk ch = true) World.init w) {c : ClientId} {cl : Client}
    (hcl : w.clients c = some cl) {e : Entry} (hremoving : cl.removing = some e) :
    cl.cxt.poolFind (cl.mem.conns e.server).ep = some e.server := by
  obtain ⟨n, ret, hrsp⟩ := removing_eq_some hremoving
  have hpool := World.poolOk_run h hcl
  have hout : Outlives w.notify := by
    refine World.outlives (fun w ch hok => ?_) h
    rw [World.poolOk, Bool.and_eq_true] at hok
    exact hok.1
  have hmem : e ∈ cl.queued := (World.fifo h hcl).served_mem hrsp (hout.serving hcl hrsp)
  exact Cxt.poolFind_of_mem hpool.nodup (hpool.queued e hmem)

/-- A server closes its connection while one request is queued for it. -/
theorem removal_defined_one : ∃ (w : World) (cl : Client) (e : Entry),
    Run World.step (fun w ch => w.poolOk ch = true) World.init w ∧ w.clients 0 = some cl ∧
      cl.removing = some e ∧ cl.cxt.poolFind (cl.mem.conns e.server).ep = some e.server := by
  have hd : (World.driveInit World.poolOk 166
      (oneRequest ++ [.epoll [⟨7, false⟩], .sys .zero, .sys (.ok msg502)])).any (fun w =>
      (w.clients 0).any fun cl => cl.removing.isSome) = true := by
    decide +kernel
  obtain ⟨w, hw, hp⟩ := exists_run_of_drive hd
  obtain ⟨cl, hcl, hp⟩ := (Option.any_eq_true _ _).mp hp
  obtain ⟨e, hremoving⟩ := Option.isSome_iff_exists.mp hp
  exact ⟨w, cl, e, hw, hcl, hremoving, removal_defined hw hcl hremoving⟩

/-- A client asks for two pages of one server in one segment; the server closes the connection. -/
def closedForTwo : List Choice :=
  [.epoll [⟨5, false⟩], .accept (.conn 6 ⟨.inet, 1, [127, 0, 0, 1]⟩ true), .accept .stop,
    .sys (.ok (bytesOf "GET http://a/ HTTP/1.1\r\n\r\nGET http://a/ HTTP/1.1\r\n\r\n")),
    .lookup true, .dnsDone 2, .epoll [⟨4, false⟩], .addrs (some [⟨.inet, [1, 2, 3, 4]⟩]),
    .connect (.connected 7 true), .sys (.ok (bytesOf "GET / HTTP/1.1\r\nHost: a\r\n\r\n")),
    .sys (.ok (bytesOf "GET / HTTP/1.1\r\nHost: a\r\n\r\n")), .sys .again, .sys .again,
    .sys .again, .epoll [⟨7, false⟩], .sys .zero, .sys (.ok msg502), .sys .err, .sys (.ok msg502)]

/-- The first request takes the connection out of the pool, and for the second there is none. -/
theorem removal_null : ∃ (w : World) (cl : Client) (e : Entry), w.Reachable ∧
    w.clients 0 = some cl ∧ cl.removing = some e ∧
      cl.cxt.poolFind (cl.mem.conns e.server).ep = none := by
  have hd : (World.driveInit (fun _ _ => true) 288 closedForTwo).any (fun w =>
      (w.clients 0).any fun cl => cl.removing.any fun e =>
        cl.cxt.poolFind (cl.mem.conns e.server).ep = none) = true := by
    decide +kernel
  obtain ⟨w, hw, hp⟩ := World.reachable_of_drive hd
  obtain ⟨cl, hcl, hp⟩ := (Option.any_eq_true _ _).mp hp
  obtain ⟨e, hremoving, hnone⟩ := (Option.any_eq_true _ _).mp hp
  exact ⟨w, cl, e, hw, hcl, hremoving, of_decide_eq_true hnone⟩

end HttpProxy
