/-
  HttpProxy.Queue.Range

  What a client refers to has been allocated: the connections in the pool and of
  queued requests, the connection and the request a suspended handler holds
  (`InRange`, in every run).  A connection that is being made is younger than all
  in the pool and in the queue.
-/

import HttpProxy.Queue.Fifo
import HttpProxy.System.Conns
import HttpProxy.Parse.Queued
import Mathlib.Data.List.Nodup

namespace HttpProxy

open Lib

-- ============================================================================
-- The hash table
-- ============================================================================

namespace Cxt

variable {cxt : Cxt} {ep : Endpoint} {i : ConnIx} {t : Endpoint × ConnIx}

theorem mem_of_poolFind (h : cxt.poolFind ep = some i) : (ep, i) ∈ cxt.pool := by
  obtain ⟨t, ht, rfl⟩ := Option.map_eq_some_iff.mp h
  have hkey : t.1 = ep := by simpa using List.find?_some ht
  rw [← hkey]
  exact List.mem_of_find?_eq_some ht

theorem poolFind_eq_none (h : cxt.poolFind ep = none) (ht : t ∈ cxt.pool) : t.1 ≠ ep := by
  rw [poolFind, Option.map_eq_none_iff, List.find?_eq_none] at h
  simpa using h t ht

/-- Without two entries of one key, an entry is found under its key. -/
theorem poolFind_of_mem (hnd : (cxt.pool.map (·.1)).Nodup) (h : (ep, i) ∈ cxt.pool) :
    cxt.poolFind ep = some i := by
  cases hfind : cxt.poolFind ep with
  | none => exact absurd rfl (poolFind_eq_none hfind h)
  | some j =>
      have heq := List.inj_on_of_nodup_map hnd (mem_of_poolFind hfind) h rfl
      rw [Prod.mk.injEq] at heq
      rw [heq.2]

/-- What is left when the entry under a key is taken out. -/
theorem mem_poolDel (hnd : (cxt.pool.map (·.1)).Nodup) :
    t ∈ (cxt.poolDel ep).pool ↔ t ∈ cxt.pool ∧ t.1 ≠ ep := by
  show t ∈ cxt.pool.eraseP (·.1 = ep) ↔ _
  generalize cxt.pool = pool at hnd
  induction pool with
  | nil => simp
  | cons x pool ih =>
      rw [List.map_cons, List.nodup_cons] at hnd
      by_cases hx : x.1 = ep
      · rw [List.eraseP_cons_of_pos (by simpa using hx), List.mem_cons]
        have hne (ht : t ∈ pool) : t.1 ≠ ep := by
          rintro rfl
          exact hnd.1 (List.mem_map.mpr ⟨t, ht, hx.symm⟩)
        constructor
        · exact fun ht => ⟨.inr ht, hne ht⟩
        · rintro ⟨rfl | ht, hkey⟩
          · exact absurd hx hkey
          · exact ht
      · rw [List.eraseP_cons_of_neg (by simpa using hx), List.mem_cons, List.mem_cons, ih hnd.2]
        constructor
        · rintro (rfl | ht)
          · exact ⟨.inl rfl, hx⟩
          · exact ⟨.inr ht.1, ht.2⟩
        · rintro ⟨rfl | ht, hkey⟩
          · exact .inl rfl
          · exact .inr ⟨ht, hkey⟩

theorem nodup_poolDel (hnd : (cxt.pool.map (·.1)).Nodup) :
    ((cxt.poolDel ep).pool.map (·.1)).Nodup :=
  hnd.sublist (List.eraseP_sublist.map _)

theorem nodup_poolAdd (hnd : (cxt.pool.map (·.1)).Nodup) (hnew : ∀ t ∈ cxt.pool, t.1 ≠ ep) :
    ((cxt.poolAdd ep i).pool.map (·.1)).Nodup := by
  show ((cxt.pool ++ [(ep, i)]).map (·.1)).Nodup
  rw [List.map_append, List.nodup_append]
  refine ⟨hnd, by simp, ?_⟩
  intro k hk k' hk'
  obtain ⟨t, ht, rfl⟩ := List.mem_map.mp hk
  rw [List.map_singleton, List.mem_singleton] at hk'
  exact hk' ▸ hnew t ht

end Cxt

-- ============================================================================
-- What the request coroutine holds
-- ============================================================================

/-- The connection a local of the request coroutine holds a reference to. -/
def ReqPc.server : ReqPc → Option ConnIx
  | .io (.badGateway _ server) _ => server
  | .io (.forward _ s _) _ => some s
  | .io (.body _ s) _ => some s
  | .io (.ok200 _ s) _ => some s
  | .io (.tunnel _ s) _ => some s
  | .connect _ i _ => some i
  | .connected _ i _ _ => some i
  | _ => none

/-- The request a local of the request coroutine holds a reference to. -/
def ReqPc.own : ReqPc → Option ReqIx
  | .io (.badRequest req) _ => req
  | .io (.badGateway j _) _ => some j
  | .io (.forward j _ _) _ => some j
  | .io (.body j _) _ => some j
  | .io (.ok200 j _) _ => some j
  | .io (.tunnel j _) _ => some j
  | .resolve j => some j
  | .dns j _ => some j
  | .resolved j _ => some j
  | .addrs j _ => some j
  | .getConn j _ _ => some j
  | .connect j _ _ => some j
  | .connected j _ _ _ => some j
  | _ => none

/-- The connection `conn_get_by_endpoint` is making. -/
def ReqPc.making : ReqPc → Option ConnIx
  | .connect _ i _ => some i
  | .connected _ i _ _ => some i
  | _ => none

/-- What an I/O call holds does not depend on how far it is. -/
@[simp] theorem ReqPc.io_holds {α : Type} (k : ReqK α) (p p' : Io α) :
    (ReqPc.io k p').server = (ReqPc.io k p).server ∧ (ReqPc.io k p').own = (ReqPc.io k p).own ∧
      (ReqPc.io k p').making = none := by
  cases k <;> exact ⟨rfl, rfl, rfl⟩

/-- The connections in the pool and what queued requests refer to have been allocated. -/
structure Allocated (cl : Client) : Prop where
  client : 0 < cl.mem.nconn
  pool : ∀ t ∈ cl.cxt.pool, 0 < t.2 ∧ t.2 < cl.mem.nconn
  queued : ∀ e ∈ cl.queued, (0 < e.server ∧ e.server < cl.mem.nconn) ∧ e.req < cl.mem.nreq

/-- So has what the request coroutine holds; a connection that is being made is younger than the
    others. -/
structure InRange (cl : Client) : Prop extends Allocated cl where
  server : ∀ i, cl.req.server = some i → 0 < i ∧ i < cl.mem.nconn
  own : ∀ j, cl.req.own = some j → j < cl.mem.nreq
  making :
    ∀ i, cl.req.making = some i → (∀ t ∈ cl.cxt.pool, t.2 < i) ∧ ∀ e ∈ cl.queued, e.server < i

/-- Every object of `l` is one of `l'`. -/
abbrev Local.Grows (l l' : Local) : Prop :=
  l.cl.mem.nconn ≤ l'.cl.mem.nconn ∧ l.cl.mem.nreq ≤ l'.cl.mem.nreq

section

variable {l l' : Local} {cl cl' : Client}

theorem Local.SameHeads.grows (h : l.SameHeads l') (heps : l.SameEps l') : l.Grows l' :=
  ⟨Nat.le_of_eq heps.1.symm, Nat.le_of_eq h.1.symm⟩

/-- Pool and queue hold what they held, or something that has been allocated. -/
theorem Allocated.move (h : Allocated l.cl) (hgrows : l.Grows l')
    (hpool : ∀ t ∈ l'.cl.cxt.pool, t ∈ l.cl.cxt.pool ∨ 0 < t.2 ∧ t.2 < l'.cl.mem.nconn)
    (hqueued : ∀ e ∈ l'.cl.queued, e ∈ l.cl.queued ∨
      (0 < e.server ∧ e.server < l'.cl.mem.nconn) ∧ e.req < l'.cl.mem.nreq) :
    Allocated l'.cl := by
  obtain ⟨hconn, hreq⟩ := hgrows
  constructor
  · exact Nat.lt_of_lt_of_le h.client hconn
  · intro t ht
    rcases hpool t ht with hold | hnew
    · obtain ⟨hpos, hlt⟩ := h.pool t hold
      exact ⟨hpos, Nat.lt_of_lt_of_le hlt hconn⟩
    · exact hnew
  · intro e he
    rcases hqueued e he with hold | hnew
    · obtain ⟨⟨hpos, hlt⟩, hj⟩ := h.queued e hold
      exact ⟨⟨hpos, Nat.lt_of_lt_of_le hlt hconn⟩, Nat.lt_of_lt_of_le hj hreq⟩
    · exact hnew

/-- The request coroutine holds what it held, or nothing. -/
theorem InRange.fewer (h : InRange l.cl) (hgrows : l.Grows l')
    (hpool : ∀ t ∈ l'.cl.cxt.pool, t ∈ l.cl.cxt.pool)
    (hqueued : ∀ e ∈ l'.cl.queued, e ∈ l.cl.queued)
    (hserver : l'.cl.req.server = none ∨ l'.cl.req.server = l.cl.req.server)
    (hown : l'.cl.req.own = none ∨ l'.cl.req.own = l.cl.req.own)
    (hmaking : l'.cl.req.making = none ∨ l'.cl.req.making = l.cl.req.making) : InRange l'.cl := by
  refine ⟨h.toAllocated.move hgrows (fun t ht => .inl (hpool t ht))
    (fun e he => .inl (hqueued e he)),
    fun i hi => ?_, fun j hj => ?_, fun i hi => ?_⟩
  · rcases hserver with hnone | hsame
    · exact absurd (hnone.symm.trans hi) (by simp)
    · obtain ⟨hpos, hlt⟩ := h.server i (hsame ▸ hi)
      exact ⟨hpos, Nat.lt_of_lt_of_le hlt hgrows.1⟩
  · rcases hown with hnone | hsame
    · exact absurd (hnone.symm.trans hj) (by simp)
    · exact Nat.lt_of_lt_of_le (h.own j (hsame ▸ hj)) hgrows.2
  · rcases hmaking with hnone | hsame
    · exact absurd (hnone.symm.trans hi) (by simp)
    · obtain ⟨ht, he⟩ := h.making i (hsame ▸ hi)
      exact ⟨fun t ht' => ht t (hpool t ht'), fun e he' => he e (hqueued e he')⟩

theorem Allocated.append (h : Allocated l.cl) (hfifo : Fifo l.cl) {e : Entry}
    (hgrows : l.Grows l') (hpool : l'.cl.cxt.pool = l.cl.cxt.pool)
    (hlist : l'.cl.cxt.list = l.cl.cxt.list.push e)
    (hserver : 0 < e.server ∧ e.server < l.cl.mem.nconn) (hreq : e.req < l.cl.mem.nreq) :
    Allocated l'.cl := by
  refine h.move hgrows (fun t ht => .inl (hpool ▸ ht)) fun e' he' => ?_
  rw [queued_push hfifo hlist, List.mem_append, List.mem_singleton] at he'
  rcases he' with he' | rfl
  · exact .inl he'
  · exact .inr
      ⟨⟨hserver.1, Nat.lt_of_lt_of_le hserver.2 hgrows.1⟩, Nat.lt_of_lt_of_le hreq hgrows.2⟩

theorem gotServer_inRange (h : Allocated l.cl) (hfifo : Fifo l.cl) {j : ReqIx} {s : ConnIx}
    (hj : j < l.cl.mem.nreq) (hs : 0 < s ∧ s < l.cl.mem.nconn) : InRange (l.gotServer j s).cl := by
  have hgot := l.gotServer_cases j s
  generalize l.gotServer j s = l₂ at hgot ⊢
  -- it holds `j` and `s`
  have hholds (halloc : Allocated l₂.cl) (hgrows : l.Grows l₂) (hserver : l₂.cl.req.server = some s)
      (hown : l₂.cl.req.own = some j) (hmaking : l₂.cl.req.making = none) : InRange l₂.cl := by
    refine ⟨halloc, fun i hi => ?_, fun k hk => ?_, fun i hi => ?_⟩
    · rw [← Option.some.inj (hserver.symm.trans hi)]
      exact ⟨hs.1, Nat.lt_of_lt_of_le hs.2 hgrows.1⟩
    · rw [← Option.some.inj (hown.symm.trans hk)]
      exact Nat.lt_of_lt_of_le hj hgrows.2
    · exact absurd (hmaking.symm.trans hi) (by simp)
  cases hgot with
  | http hhttp =>
      have hgrows := (l.withHost_heads j).grows (l.withHost_eps j)
      exact hholds (h.move hgrows (fun _ ht => .inl ht) fun _ he => .inl he) hgrows rfl rfl rfl
  | connect hconnect =>
      have hgrows : l.Grows (l.connected j s) := by simp [Local.Grows]
      refine hholds ?_ hgrows rfl rfl rfl
      exact h.append (e := { server := s, req := j, no := l.cl.hist.seq }) hfifo hgrows (by simp)
        (by simp) hs hj

theorem gotNewConn_inRange (h : Allocated l.cl) (hfifo : Fifo l.cl) {j : ReqIx} {i : ConnIx}
    (hj : j < l.cl.mem.nreq) (hi : 0 < i ∧ i < l.cl.mem.nconn) : InRange (l.gotNewConn j i).cl := by
  have hgrows : l.Grows ((l.pooled i).increfConn i) := by simp [Local.Grows]
  have hpool : ((l.pooled i).increfConn i).cl.cxt.pool =
      l.cl.cxt.pool ++ [(((l.pooled i).cl.mem.conns i).ep, i)] := by
    simp [Cxt.poolAdd]
  have hlist : ((l.pooled i).increfConn i).cl.cxt.list = l.cl.cxt.list := by simp [Cxt.poolAdd]
  rw [Local.gotNewConn_eq]
  refine gotServer_inRange ?_ ?_ ?_ ?_
  · refine h.move hgrows (fun t ht => ?_) fun e he => .inl ?_
    · rw [hpool, List.mem_append, List.mem_singleton] at ht
      rcases ht with ht | rfl
      · exact .inl ht
      · exact .inr ⟨hi.1, Nat.lt_of_lt_of_le hi.2 hgrows.1⟩
    · rwa [Client.queued, hlist] at he
  · exact hfifo.of_same ⟨hlist, by simp, by simp⟩ (by simpa using hfifo.served)
  · exact Nat.lt_of_lt_of_le hj hgrows.2
  · exact ⟨hi.1, Nat.lt_of_lt_of_le hi.2 hgrows.1⟩

theorem newConn_allocated (h : Allocated l.cl) (fd : Fd) (ep : Endpoint) (ok : Bool) :
    Allocated (l.newConn fd ep ok).cl :=
  h.move ⟨Nat.le_succ _, Nat.le_refl _⟩ (fun _ ht => .inl ht) fun _ he => .inl he

/-- Where the request coroutine goes when it holds no more than it did. -/
theorem InRange.goReq (h : InRange l.cl) {pc : ReqPc} (hreq : l.cl.req = pc) (hgrows : l.Grows l')
    (hpool : l'.cl.cxt.pool = l.cl.cxt.pool) (hlist : l'.cl.cxt.list = l.cl.cxt.list)
    (hserver : l'.cl.req.server = none ∨ l'.cl.req.server = pc.server)
    (hown : l'.cl.req.own = none ∨ l'.cl.req.own = pc.own)
    (hmaking : l'.cl.req.making = none) : InRange l'.cl := by
  refine h.fewer hgrows (hpool ▸ fun _ ht => ht) ?_ (hreq ▸ hserver) (hreq ▸ hown) (.inl hmaking)
  rw [Client.queued, Client.queued, hlist]
  exact fun _ he => he

theorem inRange_reqStep (hfifo : Fifo l.cl) (h : InRange l.cl) (hs : ReqCase l l') :
    InRange l'.cl := by
  cases hs with
  | @io α k p p' l₁ hreq hio =>
      obtain ⟨hserver, hown, hmaking⟩ := ReqPc.io_holds k p p'
      refine h.goReq hreq (hio.sameReqs.1.1.grows hio.sameEps.1) ?_ ?_ (.inr hserver) (.inr hown)
        hmaking
      · exact congrArg Cxt.pool hio.cxt_eq
      · exact congrArg Cxt.list hio.cxt_eq
  | @refused data kind hreq =>
      refine ⟨h.toAllocated.move ⟨Nat.le_refl _, Nat.le_succ _⟩ (fun _ ht => .inl ht)
        fun _ he => .inl he, fun i hi => absurd hi (by simp [ReqPc.server]), fun k hk => ?_,
        fun i hi => absurd hi (by simp [ReqPc.making])⟩
      rw [← Option.some.inj hk]
      exact Nat.lt_succ_self _
  | @dispatch data kind hreq hkind hparse =>
      refine ⟨h.toAllocated.move ⟨Nat.le_refl _, Nat.le_succ _⟩ (fun _ ht => .inl ht)
        fun _ he => .inl he, fun i hi => absurd hi (by simp [ReqPc.server]), fun k hk => ?_,
        fun i hi => absurd hi (by simp [ReqPc.making])⟩
      rw [← Option.some.inj hk]
      exact Nat.lt_succ_self _
  | @forwarded j s head hreq =>
      have hs := h.server s (by rw [hreq]; rfl)
      have hj := h.own j (by rw [hreq]; rfl)
      have hgrows : l.Grows (l.forwarded j s) := by simp [Local.Grows]
      refine ⟨?_, fun i hi => ?_, fun k hk => ?_, fun i hi => absurd hi (by simp [ReqPc.making])⟩
      · exact h.toAllocated.append (e := { server := s, req := j, no := l.cl.hist.seq })
          hfifo hgrows
          (by simp) (by simp) hs hj
      · rw [← Option.some.inj hi]
        exact ⟨hs.1, Nat.lt_of_lt_of_le hs.2 hgrows.1⟩
      · rw [← Option.some.inj hk]
        exact Nat.lt_of_lt_of_le hj hgrows.2
  | @evict j rp rps s hreq hmain hfamily hfind hstat =>
      refine h.fewer (by simp [Local.Grows]) ?_ ?_ (.inl rfl) (.inr (by rw [hreq]; rfl)) (.inl rfl)
      · intro t ht
        have ht' : t ∈ l.cl.cxt.pool.eraseP (·.1 = l.endpointOf j rp) := by
          simpa [Cxt.poolDel] using ht
        exact List.mem_of_mem_eraseP ht'
      · simp [Client.queued, Cxt.poolDel]
  | @reuse j rp rps s hreq hfind hstat =>
      have hmem := Cxt.mem_of_poolFind hfind
      have hgrows : l.Grows (l.increfConn s) := by simp [Local.Grows]
      refine gotServer_inRange ?_ ?_ ?_ ?_
      · exact h.toAllocated.move hgrows (fun t ht => .inl (by simpa using ht))
          fun e he => .inl (by simpa [Client.queued] using he)
      · exact hfifo.of_same (l.increfConn_frame s).sameList (by simpa using hfifo.served)
      · exact Nat.lt_of_lt_of_le (h.own j (by rw [hreq]; rfl)) hgrows.2
      · have hs := h.pool _ hmem
        exact ⟨hs.1, Nat.lt_of_lt_of_le hs.2 hgrows.1⟩
  | @newConn j ep rps fd ok hreq hfd =>
      refine gotNewConn_inRange (newConn_allocated h.toAllocated fd ep ok) ?_ ?_ ?_
      · exact hfifo.of_same (l.newConn_frame fd ep ok).sameList hfifo.served
      · exact h.own j (by rw [hreq]; rfl)
      · exact ⟨h.client, Nat.lt_succ_self _⟩
  | @connecting j ep rps fd hreq hfd =>
      refine ⟨(newConn_allocated h.toAllocated fd ep true).move ⟨Nat.le_refl _, Nat.le_refl _⟩
        (fun _ ht => .inl ht) fun _ he => .inl he, fun i hi => ?_, fun k hk => ?_, fun i hi => ?_⟩
      · rw [← Option.some.inj hi]
        exact ⟨h.client, Nat.lt_succ_self _⟩
      · rw [← Option.some.inj hk]
        exact h.own j (by rw [hreq]; rfl)
      · rw [← Option.some.inj hi]
        exact ⟨fun t ht => (h.pool t ht).2, fun e he => (h.queued e he).1.2⟩
  | noLookup hreq => exact h
  | @connected j i rps ret hreq hret =>
      exact gotNewConn_inRange h.toAllocated hfifo (h.own j (by rw [hreq]; rfl))
        (h.server i (by rw [hreq]; rfl))
  | cleanup hreq =>
      have hpool : l.reqCleanup.cl.cxt.pool = [] ∧ l.reqCleanup.cl.cxt.list = .empty ∧
          l.reqCleanup.cl.req = .finished ∧ l.Grows l.reqCleanup := by
        simp [Local.reqCleanup, Local.leave, Local.Grows]
      obtain ⟨hpool, hlist, hreq', hgrows⟩ := hpool
      refine h.fewer hgrows ?_ ?_ ?_ ?_ ?_
      · rw [hpool]
        exact fun t ht => absurd ht List.not_mem_nil
      · rw [Client.queued, hlist, LinkedQueue.cells_empty]
        exact fun e he => absurd he List.not_mem_nil
      all_goals
        rw [hreq']
        exact .inl rfl
  | done hreq =>
      have hdone : l.Grows l.reqDone ∧ l.reqDone.cl.cxt.pool = l.cl.cxt.pool ∧
          l.reqDone.cl.cxt.list = l.cl.cxt.list ∧ l.reqDone.cl.req.server = none ∧
          l.reqDone.cl.req.own = none ∧ l.reqDone.cl.req.making = none := by
        unfold Local.reqDone
        dsimp only
        split <;> exact ⟨⟨Nat.le_refl _, Nat.le_refl _⟩, rfl, rfl, rfl, rfl, rfl⟩
      obtain ⟨hgrows, hpool, hlist, hserver, hown, hmaking⟩ := hdone
      exact h.goReq hreq hgrows hpool hlist (.inl hserver) (.inl hown) hmaking
  | @resolved j eid res hreq =>
      obtain ⟨rps, hreq'⟩ := (l.dnsResolved_frame j eid res).2.2
      refine h.goReq hreq (by simp [Local.Grows]) (by simp) (by simp) ?_ ?_ ?_
      all_goals rw [hreq']
      · exact .inl rfl
      · exact .inr rfl
      · rfl
  | _ =>
      exact h.goReq ‹l.cl.req = _› (by simp [Local.Grows]) (by simp) (by simp)
        (by simp [ReqPc.server])
        (by simp [ReqPc.own]) (by simp [ReqPc.making])

theorem inRange_rspStep (hfifo : Fifo l.cl) (h : InRange l.cl) (hs : RspCase l l') :
    InRange l'.cl := by
  have hkeep (hgrows : l.Grows l') (hpool : ∀ t ∈ l'.cl.cxt.pool, t ∈ l.cl.cxt.pool)
      (hqueued : ∀ e ∈ l'.cl.queued, e ∈ l.cl.queued) : InRange l'.cl :=
    h.fewer hgrows hpool hqueued (.inr (by rw [hs.req_eq])) (.inr (by rw [hs.req_eq]))
      (.inr (by rw [hs.req_eq]))
  have hpop {n : Nat} {e : Entry} {ret : Int} (hdead : l.cxtDead = false)
      (hrsp : l.cl.rsp = .serve n e (.ret ret)) (hlist : l'.cl.cxt.list = l.cl.cxt.list.pop n) :
      ∀ e ∈ l'.cl.queued, e ∈ l.cl.queued := by
    rw [hfifo.queued_pop hrsp (live_of_cxtDead hdead) hlist]
    exact fun _ he => List.mem_cons_of_mem _ he
  cases hs with
  | @io n e p p' l₁ hdead hrsp hio =>
      have hcxt : (l₁.setRspPc (.serve n e p')).cl.cxt = l.cl.cxt := hio.cxt_eq
      refine hkeep (hio.sameReqs.1.1.grows hio.sameEps.1) (by rw [hcxt]; exact fun _ ht => ht) ?_
      rw [Client.queued, Client.queued, hcxt]
      exact fun _ he => he
  | @evict n e ret t hdead hrsp hcnt hstat hfind =>
      refine hkeep (by simp [Local.Grows, Local.rspPop]) (fun t ht => ?_) (hpop hdead hrsp ?_)
      · have ht' : t ∈ l.cl.cxt.pool.eraseP (·.1 = (l.cl.mem.conns e.server).ep) := by
          simpa [Local.rspPop, Cxt.poolDel] using ht
        exact List.mem_of_mem_eraseP ht'
      · simp [Local.rspPop, Cxt.poolDel]
  | @pop n e ret hdead hrsp hcnt hstat =>
      refine hkeep (by simp [Local.Grows, Local.rspPop]) (by simp [Local.rspPop])
        (hpop hdead hrsp ?_)
      simp [Local.rspPop]
  | exit hdead hrsp =>
      have hexit : l.Grows l.rspExit ∧ l.rspExit.cl.cxt.pool = l.cl.cxt.pool ∧
          l.rspExit.cl.cxt.list = l.cl.cxt.list := by
        unfold Local.rspExit
        dsimp only
        split <;> simp [Local.Grows, Local.leave]
      obtain ⟨hgrows, hpool, hlist⟩ := hexit
      refine hkeep hgrows (by rw [hpool]; exact fun _ ht => ht) ?_
      rw [Client.queued, Client.queued, hlist]
      exact fun _ he => he
  | sleep hdead hrsp hhead =>
      exact hkeep ⟨Nat.le_refl _, Nat.le_refl _⟩ (fun _ ht => ht) fun _ he => he
  | _ => exact hkeep ⟨Nat.le_refl _, Nat.le_refl _⟩ (fun _ ht => ht) fun _ he => he

theorem inRange_resume (h : InRange cl) (side : Side) (ret : Int) :
    InRange (cl.resume side ret) := by
  cases side with
  | req =>
      show InRange (cl.resumeReq ret)
      unfold Client.resumeReq
      dsimp only
      split
      · exact ⟨⟨h.client, h.pool, h.queued⟩, by simp [ReqPc.server], by simp [ReqPc.own],
          by simp [ReqPc.making]⟩
      · rename_i α k p hreq
        obtain ⟨hserver, hown, hmaking⟩ := ReqPc.io_holds k p (ioResume ret p)
        refine ⟨⟨h.client, h.pool, h.queued⟩, fun i hi => h.server i ?_, fun j hj => h.own j ?_,
          fun i hi => absurd (hmaking.symm.trans hi) (by simp)⟩
        · rw [hreq, ← hserver]
          exact hi
        · rw [hreq, ← hown]
          exact hj
      · rename_i j eid hreq
        refine ⟨⟨h.client, h.pool, h.queued⟩, by simp [ReqPc.server], fun k hk => h.own k ?_,
          by simp [ReqPc.making]⟩
        rw [hreq]
        exact hk
      · rename_i j i rps hreq
        refine ⟨⟨h.client, h.pool, h.queued⟩, fun i hi => h.server i ?_, fun k hk => h.own k ?_,
          fun i hi => h.making i ?_⟩
        all_goals rw [hreq]
        · exact hi
        · exact hk
        · exact hi
      · exact ⟨⟨h.client, h.pool, h.queued⟩, by simp [ReqPc.server], by simp [ReqPc.own],
          by simp [ReqPc.making]⟩
      · exact ⟨⟨h.client, h.pool, h.queued⟩, h.server, h.own, h.making⟩
  | rsp =>
      show InRange (cl.resumeRsp ret)
      unfold Client.resumeRsp
      dsimp only
      split <;> exact ⟨⟨h.client, h.pool, h.queued⟩, h.server, h.own, h.making⟩

end

theorem inRange_new (sh : Shared) (conn : Conn) : InRange (World.newClient sh conn) := by
  refine ⟨⟨Nat.one_pos, fun t ht => absurd ht List.not_mem_nil, fun e he => ?_⟩,
    fun i hi => absurd hi (by simp [World.newClient, ReqPc.server]),
    fun j hj => absurd hj (by simp [World.newClient, ReqPc.own]),
    fun i hi => absurd hi (by simp [World.newClient, ReqPc.making])⟩
  rw [queued_new] at he
  exact absurd he List.not_mem_nil

theorem inRange_invariant : ClientInvariant (fun _ _ _ => true) Fifo InRange where
  new := fun sh conn _ _ => inRange_new sh conn
  req := fun _ _ _ _ _ hfifo h hs => inRange_reqStep hfifo h hs
  rsp := fun _ _ _ _ _ hfifo h hs => inRange_rspStep hfifo h hs
  resume := fun _ side ret _ _ h => inRange_resume h side ret
  err := fun _ _ _ _ h => ⟨⟨h.client, h.pool, h.queued⟩, h.server, h.own, h.making⟩

/-- What a client refers to has been allocated, in every run. -/
theorem World.inRange {ok : World → Choice → Prop} {w : World} (h : Run World.step ok World.init w)
    {c : ClientId} {cl : Client} (hcl : w.clients c = some cl) : InRange cl :=
  client_invariant inRange_invariant (fun w ch _ => coOk_true w ch)
    (fun _ hr _ _ hcl => fifo hr hcl) h hcl

end HttpProxy
