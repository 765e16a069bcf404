/-
  HttpProxy.Queue.Route

  Where requests go.  The answers of the resolver reach `net_connect_to_server`
  through the cache all clients share, and the connection it returns may come from
  the pool; still a request is only ever sent to an address its own host has
  (`request_routed`), on the port it asks for.

  The invariant follows the address list of a lookup through the loop of
  `net_connect_to_server` and the wait of `conn_get_by_endpoint` to the handler
  that writes to the server (`ReqPc.Routed`); the pool keeps each connection under
  its own endpoint, and the cache answers as the resolver does (`CacheOk`).
-/

import HttpProxy.Queue.Range
import HttpProxy.Queue.Forward
import HttpProxy.System.Targets

namespace HttpProxy

open Lib

/-- What `getaddrinfo_a` finds for a host. -/
abbrev Resolver := Bytes → Option (List AddrInfo)

section

variable (dns : Resolver)

-- ============================================================================
-- Routes
-- ============================================================================

namespace Mem

variable (m : Mem) (j : ReqIx)

/-- `ep` is an address of the host of request `j`, with its port. -/
def Leads (ep : Endpoint) : Prop :=
  ∃ rps rp, dns (m.target j).1 = some rps ∧ rp ∈ rps ∧
    ep = ⟨rp.family, htons (m.target j).2, rp.addr⟩

/-- Addresses of the host of request `j`. -/
def AddrsOf (rps : List AddrInfo) : Prop :=
  ∀ rp ∈ rps, ∃ all, dns (m.target j).1 = some all ∧ rp ∈ all

/-- Connection `s` is one request `j` asks for. -/
structure Route (s : ConnIx) : Prop where
  req : j < m.nreq
  conn : s < m.nconn
  leads : m.Leads dns j (m.eps s)

/-- Every object of `m` is one of `m'`, with its target or its endpoint. -/
structure Extends (m m' : Mem) : Prop where
  nreq : m.nreq ≤ m'.nreq
  nconn : m.nconn ≤ m'.nconn
  target : ∀ j < m.nreq, m'.target j = m.target j
  eps : ∀ i < m.nconn, m'.eps i = m.eps i

end Mem

/-- The request an I/O call sends to a server. -/
def ReqK.sends : {α : Type} → ReqK α → Option (ReqIx × ConnIx)
  | _, .forward j s _ => some (j, s)
  | _, .body j s => some (j, s)
  | _, .ok200 j s => some (j, s)
  | _, .tunnel j s => some (j, s)
  | _, _ => none

/-- What the request coroutine is about to try, and where it sends, is what its request asks
    for. -/
def ReqPc.Routed (m : Mem) : ReqPc → Prop
  | .io k _ => ∀ j s, k.sends = some (j, s) → m.Route dns j s
  | .addrs j rps => m.AddrsOf dns j rps
  | .getConn j ep rps => m.Leads dns j ep ∧ m.AddrsOf dns j rps
  | .connect j i rps => m.Leads dns j (m.eps i) ∧ m.AddrsOf dns j rps
  | .connected j i rps _ => m.Leads dns j (m.eps i) ∧ m.AddrsOf dns j rps
  | _ => True

/-- The pool holds each connection under its endpoint, and all requests that were appended or
    sent in full went where they asked to. -/
structure Paths (cl : Client) : Prop where
  pool : ∀ t ∈ cl.cxt.pool, t.2 < cl.mem.nconn ∧ cl.mem.eps t.2 = t.1
  appended : ∀ e ∈ cl.hist.appended, cl.mem.Route dns e.req e.server
  heads : ∀ t ∈ cl.hist.heads, cl.mem.Route dns t.2 t.1

structure Routes (cl : Client) : Prop extends Paths dns cl where
  pc : cl.req.Routed dns cl.mem

/-- Every entry of the cache is an answer of the resolver. -/
def CacheOk (cache : List (Bytes × List AddrInfo)) : Prop := ∀ h ∈ cache, dns h.1 = some h.2

/-- A lookup that returns brings the answer of the resolver. -/
def Local.resolvedBy (side : Side) (l : Local) (ch : Choice) : Bool :=
  match side, l.cl.req, ch with
  | .req, .resolved j _, .addrs res => res = dns (l.cl.mem.target j).1
  | _, _, _ => true

/-- All lookups of the run are answered by `dns`. -/
def World.resolvedBy (w : World) (ch : Choice) : Bool := w.coOk (Local.resolvedBy dns) ch

end

section

variable {dns : Resolver} {m m' : Mem} {l l' : Local} {cl : Client} {j : ReqIx} {s : ConnIx}

theorem Mem.Leads.mono {ep : Endpoint} (h : m.Leads dns j ep) (hext : m.Extends m')
    (hj : j < m.nreq) : m'.Leads dns j ep := by
  rw [Mem.Leads, hext.target j hj]
  exact h

theorem Mem.AddrsOf.mono {rps : List AddrInfo} (h : m.AddrsOf dns j rps) (hext : m.Extends m')
    (hj : j < m.nreq) : m'.AddrsOf dns j rps := by
  rw [Mem.AddrsOf, hext.target j hj]
  exact h

theorem Mem.Route.mono (h : m.Route dns j s) (hext : m.Extends m') : m'.Route dns j s where
  req := Nat.lt_of_lt_of_le h.req hext.nreq
  conn := Nat.lt_of_lt_of_le h.conn hext.nconn
  leads := by
    rw [hext.eps s h.conn]
    exact h.leads.mono hext h.req

/-- What a coroutine holds stays where it led to. -/
theorem ReqPc.Routed.mono (h : cl.req.Routed dns cl.mem) (hin : InRange cl)
    (hext : cl.mem.Extends m') : cl.req.Routed dns m' := by
  have hown := hin.own
  have hserver := hin.server
  generalize cl.req = pc at h hown hserver ⊢
  have hleads {j : ReqIx} {i : ConnIx} (hi : i < cl.mem.nconn) (hj : j < cl.mem.nreq)
      (h : cl.mem.Leads dns j (cl.mem.eps i)) : m'.Leads dns j (m'.eps i) := by
    rw [hext.eps i hi]
    exact h.mono hext hj
  cases pc with
  | io k p => exact fun j s hk => (h j s hk).mono hext
  | addrs j rps => exact Mem.AddrsOf.mono h hext (hown j rfl)
  | getConn j ep rps => exact ⟨h.1.mono hext (hown j rfl), h.2.mono hext (hown j rfl)⟩
  | connect j i rps =>
      exact ⟨hleads (hserver i rfl).2 (hown j rfl) h.1, h.2.mono hext (hown j rfl)⟩
  | connected j i rps ret =>
      exact ⟨hleads (hserver i rfl).2 (hown j rfl) h.1, h.2.mono hext (hown j rfl)⟩
  | _ => trivial

/-- Operations that change neither targets nor endpoints. -/
theorem Local.SameTargets.extends (h : l.SameTargets l') (hheads : l.SameHeads l')
    (heps : l.SameEps l') : l.cl.mem.Extends l'.cl.mem where
  nreq := Nat.le_of_eq hheads.1.symm
  nconn := Nat.le_of_eq heps.1.symm
  target := fun j _ => congrFun h j
  eps := fun i _ => congrFun heps.2 i

theorem Paths.move (h : Paths dns l.cl) (hext : l.cl.mem.Extends l'.cl.mem)
    (hpool : ∀ t ∈ l'.cl.cxt.pool, t ∈ l.cl.cxt.pool ∨
      t.2 < l'.cl.mem.nconn ∧ l'.cl.mem.eps t.2 = t.1)
    (happended : ∀ e ∈ l'.cl.hist.appended, e ∈ l.cl.hist.appended ∨
      l'.cl.mem.Route dns e.req e.server)
    (hheads : ∀ t ∈ l'.cl.hist.heads, t ∈ l.cl.hist.heads ∨ l'.cl.mem.Route dns t.2 t.1) :
    Paths dns l'.cl where
  pool := by
    intro t ht
    rcases hpool t ht with hold | hnew
    · obtain ⟨hlt, hep⟩ := h.pool t hold
      exact ⟨Nat.lt_of_lt_of_le hlt hext.nconn, (hext.eps t.2 hlt).trans hep⟩
    · exact hnew
  appended := by
    intro e he
    rcases happended e he with hold | hnew
    · exact (h.appended e hold).mono hext
    · exact hnew
  heads := by
    intro t ht
    rcases hheads t ht with hold | hnew
    · exact (h.heads t hold).mono hext
    · exact hnew

/-- Nothing is added to what the client holds. -/
theorem Paths.fewer (h : Paths dns l.cl) (hext : l.cl.mem.Extends l'.cl.mem)
    (hpool : ∀ t ∈ l'.cl.cxt.pool, t ∈ l.cl.cxt.pool)
    (happended : l'.cl.hist.appended = l.cl.hist.appended)
    (hheads : l'.cl.hist.heads = l.cl.hist.heads) : Paths dns l'.cl :=
  h.move hext (fun t ht => .inl (hpool t ht)) (fun _ he => .inl (happended ▸ he))
    fun _ ht => .inl (hheads ▸ ht)

-- ============================================================================
-- A server is found
-- ============================================================================

theorem gotServer_routes (h : Paths dns l.cl) (hroute : l.cl.mem.Route dns j s) :
    Routes dns (l.gotServer j s).cl := by
  have hgot := l.gotServer_cases j s
  generalize l.gotServer j s = l₂ at hgot ⊢
  cases hgot with
  | http hhttp =>
      have hext : l.cl.mem.Extends (l.withHost j).cl.mem :=
        (l.withHost_targets j).extends (l.withHost_heads j) (l.withHost_eps j)
      refine ⟨h.fewer hext (by simp) (by simp) (by simp), ?_⟩
      intro j' s' hk
      obtain ⟨rfl, rfl⟩ := Prod.mk.inj (Option.some.inj hk)
      exact hroute.mono hext
  | connect hconnect =>
      have hext : l.cl.mem.Extends (l.connected j s).cl.mem :=
        (l.appendEntry_targets j s).extends (by simp [Local.SameHeads]) (by simp [Local.SameEps])
      refine ⟨h.move hext (fun t ht => .inl ?_) (fun e he => ?_) (fun t ht => .inl ?_), ?_⟩
      · simpa using ht
      · have he' : e ∈ l.cl.hist.appended ++ [{ server := s, req := j, no := l.cl.hist.seq }] := by
          simpa using he
        rw [List.mem_append, List.mem_singleton] at he'
        rcases he' with hold | rfl
        · exact .inl hold
        · exact .inr (hroute.mono hext)
      · simpa using ht
      · intro j' s' hk
        obtain ⟨rfl, rfl⟩ := Prod.mk.inj (Option.some.inj hk)
        exact hroute.mono hext

/-- A new connection goes into the pool under its endpoint. -/
theorem gotNewConn_routes (h : Paths dns l.cl) {i : ConnIx} (hroute : l.cl.mem.Route dns j i) :
    Routes dns (l.gotNewConn j i).cl := by
  have htargets : l.SameTargets ((l.pooled i).increfConn i) := by simp [Local.SameTargets]
  have hext := htargets.extends (by simp [Local.SameHeads]) (by simp [Local.SameEps])
  have hep : ((l.pooled i).cl.mem.conns i).ep = l.cl.mem.eps i := congrFun (l.pooled_eps i).2 i
  have hpool : ((l.pooled i).increfConn i).cl.cxt.pool =
      l.cl.cxt.pool ++ [(l.cl.mem.eps i, i)] := by
    simp [hep, Cxt.poolAdd]
  rw [Local.gotNewConn_eq]
  refine gotServer_routes (h.move hext (fun t ht => ?_) (fun e he => .inl ?_) fun t ht => .inl ?_)
    (hroute.mono hext)
  · rw [hpool, List.mem_append, List.mem_singleton] at ht
    rcases ht with hold | rfl
    · exact .inl hold
    · exact .inr ⟨(hroute.mono hext).conn, hext.eps i hroute.conn⟩
  · simpa using he
  · simpa using ht

/-- Making a connection changes no other. -/
theorem newConn_extends (l : Local) (fd : Fd) (ep : Endpoint) (ok : Bool) :
    l.cl.mem.Extends (l.newConn fd ep ok).cl.mem ∧
      (l.newConn fd ep ok).cl.mem.eps l.cl.mem.nconn = ep := by
  refine ⟨⟨Nat.le_refl _, Nat.le_succ _, fun j _ => rfl, fun i hi => ?_⟩, ?_⟩
  · simp [Local.newConn, Mem.eps, Nat.ne_of_lt hi]
  · simp [Local.newConn, Mem.eps]

theorem newConn_route (hj : j < l.cl.mem.nreq) {ep : Endpoint} (hleads : l.cl.mem.Leads dns j ep)
    (fd : Fd) (ok : Bool) :
    (l.newConn fd ep ok).cl.mem.Route dns j l.cl.mem.nconn := by
  obtain ⟨hext, hep⟩ := newConn_extends l fd ep ok
  refine ⟨hj, Nat.lt_succ_self _, ?_⟩
  rw [hep]
  exact hleads.mono hext hj

-- ============================================================================
-- The request coroutine
-- ============================================================================

/-- A step that gives the request coroutine nothing to try. -/
theorem Routes.go (h : Routes dns l.cl) (hext : l.cl.mem.Extends l'.cl.mem)
    (hpool : ∀ t ∈ l'.cl.cxt.pool, t ∈ l.cl.cxt.pool)
    (happended : l'.cl.hist.appended = l.cl.hist.appended)
    (hheads : l'.cl.hist.heads = l.cl.hist.heads) (hpc : l'.cl.req.Routed dns l'.cl.mem) :
    Routes dns l'.cl :=
  ⟨h.toPaths.fewer hext hpool happended hheads, hpc⟩

/-- A head that is complete is the one being forwarded. -/
theorem IoCase.heads_mem {side : Side} {srv : ConnIx} {α : Type} {p p' : Io α}
    (h : IoCase l side srv p l' p') {t : ConnIx × ReqIx} (ht : t ∈ l'.cl.hist.heads) :
    t ∈ l.cl.hist.heads ∨ ∃ head, l.cl.forwarding = some (t.2, t.1, head) := by
  by_cases hside : side = .rsp ∨ l.cl.forwarding = none
  · rw [(h.sameForwards hside).1.heads] at ht
    exact .inl ht
  rw [not_or] at hside
  obtain ⟨⟨j, s, head⟩, hforwarding⟩ := Option.ne_none_iff_exists'.mp hside.2
  have hsame (heq : l'.cl.hist.heads = l.cl.hist.heads) :
      t ∈ l.cl.hist.heads ∨ ∃ head, l.cl.forwarding = some (t.2, t.1, head) := .inl (heq ▸ ht)
  cases h with
  | unroll body s k => exact hsame rfl
  | stuck o k f => exact hsame rfl
  | yield r d k hfreed => exact hsame (by simp)
  | act hfreed hact =>
      cases hact with
      | sys r q res hok =>
          cases q with
          | recv len => cases res <;> exact hsame rfl
          | send data =>
              cases res with
              | ok bs =>
                  cases side with
                  | rsp => exact absurd rfl hside.1
                  | req =>
                      cases r with
                      | client => exact hsame rfl
                      | server =>
                          have ht' : t ∈ (l.cl.logForward bs).heads := ht
                          rw [Client.logForward, hforwarding] at ht'
                          dsimp only at ht'
                          split at ht'
                          · rw [List.mem_append, List.mem_singleton] at ht'
                            rcases ht' with hold | rfl
                            · exact .inl hold
                            · exact .inr ⟨head, hforwarding⟩
                          · exact .inl ht'
              | _ => exact hsame rfl
      | close r => exact hsame (by simp)
      | mark a => cases side <;> exact hsame rfl
      | _ => exact hsame rfl

theorem sends_of_forwarding {α : Type} {k : ReqK α} {p : Io α} {head : Bytes}
    (hreq : cl.req = .io k p) (h : cl.forwarding = some (j, s, head)) : k.sends = some (j, s) := by
  rw [Client.forwarding, hreq] at h
  cases k with
  | forward j' s' head' =>
      obtain ⟨rfl, heq⟩ := Prod.mk.inj (Option.some.inj h)
      obtain ⟨rfl, -⟩ := Prod.mk.inj heq
      rfl
  | _ => exact absurd h (by simp)

/-- The bytes of a head that are accepted go to the server the request asks for. -/
theorem routes_io (h : Routes dns l.cl) {α : Type} {k : ReqK α} {p p' : Io α}
    (hreq : l.cl.req = .io k p) (hio : IoCase l .req k.srv p l' p') :
    Routes dns (l'.setReqPc (.io k p')).cl := by
  have hext := hio.sameTargets.extends hio.sameReqs.1.1 hio.sameEps.1
  have hpc := h.pc
  rw [hreq] at hpc
  have hroute (j : ReqIx) (s : ConnIx) (hk : k.sends = some (j, s)) : l'.cl.mem.Route dns j s :=
    (hpc j s hk).mono hext
  have hextends : l.cl.mem.Extends (l'.setReqPc (.io k p')).cl.mem := hext
  refine ⟨Paths.move h.toPaths hextends ?_ ?_ ?_, hroute⟩
  · intro t ht
    have hcxt : (l'.setReqPc (.io k p')).cl.cxt = l.cl.cxt := hio.cxt_eq
    rw [hcxt] at ht
    exact .inl ht
  · intro e he
    have hsame : (l'.setReqPc (.io k p')).cl.hist.appended = l.cl.hist.appended :=
      hio.sameList.1.appended
    rw [hsame] at he
    exact .inl he
  · intro t ht
    rcases hio.heads_mem ht with hold | ⟨head, hforwarding⟩
    · exact .inl hold
    · exact .inr (hroute _ _ (sends_of_forwarding hreq hforwarding))

theorem Mem.AddrsOf.tail {rp : AddrInfo} {rps : List AddrInfo} (h : m.AddrsOf dns j (rp :: rps)) :
    m.AddrsOf dns j rps :=
  fun rp' hrp' => h rp' (List.mem_cons_of_mem _ hrp')

/-- The endpoint that is tried at the first address. -/
theorem Mem.AddrsOf.leads {rp : AddrInfo} {rps : List AddrInfo}
    (h : l.cl.mem.AddrsOf dns j (rp :: rps)) : l.cl.mem.Leads dns j (l.endpointOf j rp) := by
  obtain ⟨all, hall, hmem⟩ := h rp List.mem_cons_self
  exact ⟨all, rp, hall, hmem, rfl⟩

theorem begun_extends (l : Local) (data : NetData) (kind : HandlerKind) :
    l.cl.mem.Extends (l.begun data kind).cl.mem where
  nreq := Nat.le_succ _
  nconn := Nat.le_refl _
  target := fun _ hj => l.begun_target data kind hj
  eps := fun _ _ => rfl

/-- The steps that neither look up a host nor return from there. -/
theorem routes_reqCase (hin : InRange l.cl) (h : Routes dns l.cl)
    (hresolve : ∀ j, l.cl.req ≠ .resolve j) (hresolved : ∀ j eid, l.cl.req ≠ .resolved j eid)
    (hs : ReqCase l l') : Routes dns l'.cl := by
  have hpc := h.pc
  cases hs with
  | @io α k p p' l₁ hreq hio => exact routes_io h hreq hio
  | @refused data kind hreq =>
      exact h.go (begun_extends l data kind) (by simp) (by simp) (by simp) (by simp [ReqPc.Routed,
        ReqK.sends])
  | @dispatch data kind hreq hkind hparse =>
      exact h.go (begun_extends l data kind) (by simp) (by simp) (by simp) trivial
  | @forwarded j s head hreq =>
      rw [hreq] at hpc
      have hroute : l.cl.mem.Route dns j s := hpc j s rfl
      have htargets : l.SameTargets (l.forwarded j s) := by simp [Local.SameTargets]
      have hext := htargets.extends (by simp [Local.SameHeads]) (by simp [Local.SameEps])
      refine ⟨h.toPaths.move hext (fun t ht => .inl ?_) (fun e he => ?_) fun t ht => .inl ?_, ?_⟩
      · simpa using ht
      · have he' : e ∈ l.cl.hist.appended ++ [{ server := s, req := j, no := l.cl.hist.seq }] := by
          simpa using he
        rw [List.mem_append, List.mem_singleton] at he'
        rcases he' with hold | rfl
        · exact .inl hold
        · exact .inr (hroute.mono hext)
      · simpa using ht
      · intro j' s' hk
        obtain ⟨rfl, rfl⟩ := Prod.mk.inj (Option.some.inj hk)
        exact hroute.mono hext
  | @okDone j s hreq =>
      rw [hreq] at hpc
      refine h.go ⟨Nat.le_refl _, Nat.le_refl _, fun _ _ => rfl, fun _ _ => rfl⟩ (fun _ ht => ht)
        rfl rfl ?_
      intro j' s' hk
      obtain ⟨rfl, rfl⟩ := Prod.mk.inj (Option.some.inj hk)
      exact hpc j s rfl
  | resolved hreq => exact absurd hreq (hresolved _ _)
  | cached hreq => exact absurd hreq (hresolve _)
  | noLookup hreq => exact absurd hreq (hresolve _)
  | otherFamily hreq =>
      rw [hreq] at hpc
      exact h.go ⟨Nat.le_refl _, Nat.le_refl _, fun _ _ => rfl, fun _ _ => rfl⟩ (fun _ ht => ht)
        rfl rfl (Mem.AddrsOf.tail hpc)
  | notPooled hreq hfind =>
      rw [hreq] at hpc
      exact h.go ⟨Nat.le_refl _, Nat.le_refl _, fun _ _ => rfl, fun _ _ => rfl⟩ (fun _ ht => ht)
        rfl rfl ⟨Mem.AddrsOf.leads hpc, Mem.AddrsOf.tail hpc⟩
  | @evict j rp rps s hreq hmain hfamily hfind hstat =>
      rw [hreq] at hpc
      have hj : j < l.cl.mem.nreq := hin.own j (by rw [hreq]; rfl)
      have htargets := l.evicted_targets (l.endpointOf j rp) s
      have hext := htargets.extends (l.evicted_heads _ s) (l.evicted_eps _ s)
      refine h.go hext (fun t ht => ?_) (by simp) (by simp)
        ⟨(Mem.AddrsOf.leads hpc).mono hext hj, (Mem.AddrsOf.tail hpc).mono hext hj⟩
      have ht' : t ∈ l.cl.cxt.pool.eraseP (·.1 = l.endpointOf j rp) := by
        simpa [Cxt.poolDel] using ht
      exact List.mem_of_mem_eraseP ht'
  | @reuse j rp rps s hreq hfind hstat =>
      rw [hreq] at hpc
      obtain ⟨hs, hep⟩ := h.pool _ (Cxt.mem_of_poolFind hfind)
      have hroute : l.cl.mem.Route dns j s := by
        refine ⟨hin.own j (by rw [hreq]; rfl), hs, ?_⟩
        rw [hep]
        exact Mem.AddrsOf.leads hpc
      have hext := (l.increfConn_targets s).extends (l.increfConn_heads s) (l.increfConn_eps s)
      exact gotServer_routes (h.toPaths.fewer hext (by simp) (by simp) (by simp))
        (hroute.mono hext)
  | noConn hreq =>
      rw [hreq] at hpc
      exact h.go ⟨Nat.le_refl _, Nat.le_refl _, fun _ _ => rfl, fun _ _ => rfl⟩ (fun _ ht => ht)
        rfl rfl hpc.2
  | @newConn j ep rps fd ok hreq hfd =>
      rw [hreq] at hpc
      have hj : j < l.cl.mem.nreq := hin.own j (by rw [hreq]; rfl)
      exact gotNewConn_routes
        (h.toPaths.fewer (newConn_extends l fd ep ok).1 (by simp) (by simp) (by simp))
        (newConn_route hj hpc.1 fd ok)
  | @connecting j ep rps fd hreq hfd =>
      rw [hreq] at hpc
      have hj : j < l.cl.mem.nreq := hin.own j (by rw [hreq]; rfl)
      have hext := (newConn_extends l fd ep true).1
      exact h.go hext (fun _ ht => ht) rfl rfl
        ⟨(newConn_route hj hpc.1 fd true).leads, hpc.2.mono hext hj⟩
  | @notConnected j i rps hreq =>
      rw [hreq] at hpc
      have hj : j < l.cl.mem.nreq := hin.own j (by rw [hreq]; rfl)
      have htargets : l.SameTargets ((l.connDel i).decrefConnNull i) := by
        simp [Local.SameTargets]
      have hext := htargets.extends (by simp [Local.SameHeads]) (by simp [Local.SameEps])
      exact h.go hext (by simp) (by simp) (by simp) (hpc.2.mono hext hj)
  | @connected j i rps ret hreq hret =>
      rw [hreq] at hpc
      refine gotNewConn_routes h.toPaths ⟨hin.own j (by rw [hreq]; rfl), ?_, hpc.1⟩
      exact (hin.server i (by rw [hreq]; rfl)).2
  | done hreq =>
      have hdone : l.reqDone.cl.mem = l.cl.mem ∧ l.reqDone.cl.cxt.pool = l.cl.cxt.pool ∧
          l.reqDone.cl.hist = l.cl.hist ∧ l.reqDone.cl.req.Routed dns l.reqDone.cl.mem := by
        unfold Local.reqDone
        dsimp only
        split <;> exact ⟨rfl, rfl, rfl, trivial⟩
      obtain ⟨hmem, hpool, hhist, hpc'⟩ := hdone
      refine h.go ?_ (hpool ▸ fun _ ht => ht) (by rw [hhist]) (by rw [hhist]) hpc'
      rw [hmem]
      exact ⟨Nat.le_refl _, Nat.le_refl _, fun _ _ => rfl, fun _ _ => rfl⟩
  | cleanup hreq =>
      have hclean : l.SameTargets l.reqCleanup ∧ l.SameHeads l.reqCleanup ∧
          l.SameEps l.reqCleanup ∧ l.reqCleanup.cl.cxt.pool = [] ∧
          l.reqCleanup.cl.hist.appended = l.cl.hist.appended ∧
          l.reqCleanup.cl.hist.heads = l.cl.hist.heads ∧ l.reqCleanup.cl.req = .finished := by
        simp [Local.reqCleanup, Local.leave, Local.SameTargets, Local.SameHeads, Local.SameEps]
      obtain ⟨htargets, hheads, heps, hpool, happended, hsent, hreq'⟩ := hclean
      refine h.go (htargets.extends hheads heps) ?_ happended hsent ?_
      · rw [hpool]
        exact fun t ht => absurd ht List.not_mem_nil
      · rw [hreq']
        trivial
  | _ =>
      refine h.go (Local.SameTargets.extends ?_ ?_ ?_) ?_ ?_ ?_ ?_
      all_goals
        simp [Local.SameTargets, Local.SameHeads, Local.SameEps, ReqPc.Routed, ReqK.sends]

-- ============================================================================
-- Looking up a host
-- ============================================================================

/-- A host found in the cache has the addresses the resolver would answer. -/
theorem routes_dnsLookup (hcache : CacheOk dns l.sh.dns.cache) (h : Routes dns l.cl) {ch : Choice}
    (hs : l.dnsLookup j ch = some l') : Routes dns l'.cl ∧ l.SameCache l' := by
  have hsame : l.cl.mem.Extends l.cl.mem :=
    ⟨Nat.le_refl _, Nat.le_refl _, fun _ _ => rfl, fun _ _ => rfl⟩
  unfold Local.dnsLookup at hs
  dsimp only at hs
  split at hs
  · rename_i t hfind
    rw [← Option.some.inj hs]
    refine ⟨h.go hsame (fun _ ht => ht) rfl rfl fun rp hrp => ⟨t.2, ?_, hrp⟩, rfl⟩
    have hkey : t.1 = l.reqStr j (l.cl.mem.reqs j).req.host := by
      simpa using List.find?_some hfind
    show dns (l.reqStr j (l.cl.mem.reqs j).req.host) = some t.2
    rw [← hkey]
    exact hcache t (List.mem_of_find?_eq_some hfind)
  · split at hs
    · split at hs
      · rw [← Option.some.inj hs]
        exact ⟨h.go hsame (fun _ ht => ht) rfl rfl trivial, rfl⟩
      · rw [← Option.some.inj hs]
        exact ⟨h, rfl⟩
    · exact absurd hs (by simp)

/-- What a lookup returns is tried, and goes into the cache under the host it is for, which fits
    there if it has an address at all. -/
theorem routes_dnsResolved (hlong : ∀ host, DOMAIN_MAXLEN ≤ host.length → dns host = none)
    (hcache : CacheOk dns l.sh.dns.cache) (h : Routes dns l.cl) {eid : EventId}
    {res : Option (List AddrInfo)} (hres : res = dns (l.cl.mem.target j).1) :
    Routes dns (l.dnsResolved j eid res).cl ∧
      CacheOk dns (l.dnsResolved j eid res).sh.dns.cache := by
  have hsame : l.cl.mem.Extends l.cl.mem :=
    ⟨Nat.le_refl _, Nat.le_refl _, fun _ _ => rfl, fun _ _ => rfl⟩
  cases res with
  | none =>
      exact ⟨h.go hsame (fun _ ht => ht) rfl rfl fun rp hrp => absurd hrp List.not_mem_nil, hcache⟩
  | some rps =>
      refine ⟨h.go hsame (fun _ ht => ht) rfl rfl fun rp hrp => ⟨rps, hres.symm, hrp⟩, ?_⟩
      have hfits : ((l.cl.mem.target j).1).length ≤ DOMAIN_MAXLEN := by
        by_contra hlt
        rw [hlong _ (by omega)] at hres
        exact absurd hres (by simp)
      intro t ht
      rcases List.mem_cons.mp ht with rfl | hold
      · show dns ((l.cl.mem.target j).1.take DOMAIN_MAXLEN) = some rps
        rw [List.take_of_length_le hfits]
        exact hres.symm
      · exact hcache t hold

/-- The steps that look up no host leave the cache alone. -/
theorem ReqCase.sameCache (hresolved : ∀ j eid, l.cl.req ≠ .resolved j eid) (hs : ReqCase l l') :
    l.SameCache l' := by
  cases hs with
  | io hreq hio => exact hio.sameCache
  | resolved hreq => exact absurd hreq (hresolved _ _)
  | reuse hreq hfind hstat =>
      refine (Local.gotServer_cache _ _ _).trans ?_
      simp
  | newConn hreq hfd =>
      rw [Local.gotNewConn_eq]
      refine (Local.gotServer_cache _ _ _).trans ?_
      simp
  | connected hreq hret =>
      rw [Local.gotNewConn_eq]
      refine (Local.gotServer_cache _ _ _).trans ?_
      simp
  | done hreq =>
      unfold Local.reqDone
      dsimp only
      split <;> rfl
  | cleanup hreq => simp [Local.SameCache, Local.reqCleanup, Local.leave]
  | _ => simp [Local.SameCache]

theorem routes_reqStep (hlong : ∀ host, DOMAIN_MAXLEN ≤ host.length → dns host = none)
    {ch : Choice} (hok : l.resolvedBy dns .req ch = true) (hcache : CacheOk dns l.sh.dns.cache)
    (hin : InRange l.cl) (h : Routes dns l.cl) (hs : reqStep l ch = some l') :
    Routes dns l'.cl ∧ CacheOk dns l'.sh.dns.cache := by
  by_cases hresolve : ∃ j, l.cl.req = .resolve j
  · obtain ⟨j, hreq⟩ := hresolve
    have hlookup : l.dnsLookup j ch = some l' := by
      rw [← hs, reqStep, hreq]
    obtain ⟨hroutes, hsame⟩ := routes_dnsLookup hcache h hlookup
    exact ⟨hroutes, hsame ▸ hcache⟩
  by_cases hresolved : ∃ j eid, l.cl.req = .resolved j eid
  · obtain ⟨j, eid, hreq⟩ := hresolved
    rw [reqStep, hreq] at hs
    cases ch with
    | addrs res =>
        have hres : res = dns (l.cl.mem.target j).1 := by simpa [Local.resolvedBy, hreq] using hok
        rw [← Option.some.inj hs]
        exact routes_dnsResolved hlong hcache h hres
    | _ => exact absurd hs (by simp)
  have hcase := reqStep_cases hs
  have hnot : ∀ j eid, l.cl.req ≠ .resolved j eid := fun j eid hreq => hresolved ⟨j, eid, hreq⟩
  refine ⟨routes_reqCase hin h (fun j hreq => hresolve ⟨j, hreq⟩) hnot hcase, ?_⟩
  rw [hcase.sameCache hnot]
  exact hcache

-- ============================================================================
-- The rest of the proxy
-- ============================================================================

/-- The response coroutine sends no requests; it may take a connection out of the pool. -/
theorem routes_rspCase (hin : InRange l.cl) (h : Routes dns l.cl) (hs : RspCase l l') :
    Routes dns l'.cl ∧ l.SameCache l' := by
  obtain ⟨hsame, -, -⟩ := hs.sameForwards
  have hkeep (hext : l.cl.mem.Extends l'.cl.mem)
      (hpool : ∀ t ∈ l'.cl.cxt.pool, t ∈ l.cl.cxt.pool) : Routes dns l'.cl := by
    refine h.go hext hpool hsame.appended hsame.heads ?_
    rw [hs.req_eq]
    exact h.pc.mono hin hext
  cases hs with
  | io hdead hrsp hio =>
      refine ⟨hkeep (hio.sameTargets.extends hio.sameReqs.1.1 hio.sameEps.1) ?_, hio.sameCache⟩
      have hcxt := hio.cxt_eq
      intro t ht
      rw [← hcxt]
      exact ht
  | @evict n e ret t hdead hrsp hcnt hstat hfind =>
      refine ⟨hkeep (Local.SameTargets.extends ?_ ?_ ?_) fun t ht => ?_, ?_⟩
      · simp [Local.SameTargets, Local.rspPop]
      · simp [Local.SameHeads, Local.rspPop]
      · simp [Local.SameEps, Local.rspPop]
      · have ht' : t ∈ l.cl.cxt.pool.eraseP (·.1 = (l.cl.mem.conns e.server).ep) := by
          simpa [Local.rspPop, Cxt.poolDel] using ht
        exact List.mem_of_mem_eraseP ht'
      · simp [Local.SameCache, Local.rspPop]
  | exit hdead hrsp =>
      have hexit : l.SameTargets l.rspExit ∧ l.SameHeads l.rspExit ∧ l.SameEps l.rspExit ∧
          l.rspExit.cl.cxt.pool = l.cl.cxt.pool ∧ l.SameCache l.rspExit := by
        unfold Local.rspExit
        dsimp only
        split <;> simp [Local.SameTargets, Local.SameHeads, Local.SameEps, Local.SameCache,
          Local.leave]
      obtain ⟨htargets, hheads, heps, hpool, hcache⟩ := hexit
      exact ⟨hkeep (htargets.extends hheads heps) (hpool ▸ fun _ ht => ht), hcache⟩
  | sleep hdead hrsp hhead =>
      exact ⟨hkeep ⟨Nat.le_refl _, Nat.le_refl _, fun _ _ => rfl, fun _ _ => rfl⟩ fun _ ht => ht,
        rfl⟩
  | _ =>
      refine ⟨hkeep (Local.SameTargets.extends ?_ ?_ ?_) ?_, ?_⟩
      all_goals
        simp [Local.SameTargets, Local.SameHeads, Local.SameEps, Local.SameCache, Local.rspPop]

theorem routes_resume (h : Routes dns cl) (side : Side) (ret : Int) :
    Routes dns (cl.resume side ret) := by
  have hpc := h.pc
  cases side with
  | rsp =>
      show Routes dns (cl.resumeRsp ret)
      unfold Client.resumeRsp
      dsimp only
      split <;> exact ⟨⟨h.pool, h.appended, h.heads⟩, hpc⟩
  | req =>
      show Routes dns (cl.resumeReq ret)
      unfold Client.resumeReq
      dsimp only
      split
      · exact ⟨⟨h.pool, h.appended, h.heads⟩, trivial⟩
      · rename_i hreq
        rw [hreq] at hpc
        exact ⟨⟨h.pool, h.appended, h.heads⟩, hpc⟩
      · exact ⟨⟨h.pool, h.appended, h.heads⟩, trivial⟩
      · rename_i hreq
        rw [hreq] at hpc
        exact ⟨⟨h.pool, h.appended, h.heads⟩, hpc⟩
      · exact ⟨⟨h.pool, h.appended, h.heads⟩, trivial⟩
      · exact ⟨⟨h.pool, h.appended, h.heads⟩, hpc⟩

theorem routes_new (sh : Shared) (conn : Conn) : Routes dns (World.newClient sh conn) :=
  ⟨⟨fun _ ht => absurd ht List.not_mem_nil, fun _ he => absurd he List.not_mem_nil,
    fun _ ht => absurd ht List.not_mem_nil⟩, trivial⟩

/-- `conn_err_handler` keeps the endpoint. -/
theorem routes_err (hin : InRange cl) (h : Routes dns cl) (i : ConnIx) :
    Routes dns (cl.connErr i) := by
  have hext : cl.mem.Extends (cl.connErr i).mem := by
    refine ⟨Nat.le_refl _, Nat.le_refl _, fun _ _ => rfl, fun k _ => ?_⟩
    exact congrFun (Mem.setConn_eps _ i (fun c => { c with stat := .closed }) rfl) k
  refine ⟨⟨fun t ht => ?_, fun e he => (h.appended e he).mono hext,
    fun t ht => (h.heads t ht).mono hext⟩, h.pc.mono hin hext⟩
  obtain ⟨hlt, hep⟩ := h.pool t ht
  exact ⟨hlt, (hext.eps t.2 hlt).trans hep⟩

end

-- ============================================================================
-- Runs
-- ============================================================================

namespace World

variable {dns : Resolver} {w w' : World} {ch : Choice}

/-- The main loop does not look up hosts. -/
theorem mainStep_cache (h : w.mainStep ch = some w') : w'.sh.dns.cache = w.sh.dns.cache := by
  unfold mainStep at h
  split at h
  · rw [← Option.some.inj h]
    unfold eventWork
    split
    · split <;> rfl
    · split
      · rfl
      · rw [asyncResume_dns]
  · rw [← Option.some.inj h]
    rfl
  · unfold epollWait at h
    split at h
    · split at h
      · rw [← Option.some.inj h]
        rfl
      · split at h
        · rw [← Option.some.inj h]
          rfl
        · exact absurd h (by simp)
    · rw [← Option.some.inj h]
      rfl
    · exact absurd h (by simp)
  · rw [← Option.some.inj h, nextTodo_dns]
  · split at h
    · rw [← Option.some.inj h]
      rfl
    · rw [← Option.some.inj h, callHandler_dns]
  · split at h
    · rw [← Option.some.inj h]
      rfl
    · rw [← Option.some.inj h, callHandler_dns]
  · split at h
    · rw [← Option.some.inj h]
      rfl
    · split at h
      · exact absurd h (by simp)
      · rw [← Option.some.inj h]
        rfl
    · exact absurd h (by simp)
  · split at h
    · rw [← Option.some.inj h]
    · rw [← Option.some.inj h]
      rfl
  · exact absurd h (by simp)

/-- The cache answers as the resolver does, and every client is routed. -/
structure Resolves (dns : Resolver) (w : World) : Prop where
  cache : CacheOk dns w.sh.dns.cache
  clients : ∀ c cl, w.clients c = some cl → Routes dns cl

theorem resolves_step (hlong : ∀ host, DOMAIN_MAXLEN ≤ host.length → dns host = none)
    (hin : ∀ c cl, w.clients c = some cl → InRange cl) (h : w.Resolves dns)
    (hok : w.resolvedBy dns ch = true) (hs : w.step ch = some w') : w'.Resolves dns := by
  constructor
  · rcases step_cases_ok hok hs with ⟨eid, hd⟩ | ⟨-, hm⟩ | ⟨x, cl, l', -, hcl, hg, hl', rfl⟩
    · have hsame : w'.sh.dns.cache = w.sh.dns.cache := by
        unfold dnsDone at hd
        split at hd
        · rw [← Option.some.inj hd]
        · exact absurd hd (by simp)
      rw [hsame]
      exact h.cache
    · rw [mainStep_cache hm]
      exact h.cache
    · obtain ⟨c, side⟩ := x
      cases side with
      | req =>
          exact (routes_reqStep hlong hg h.cache (hin c cl hcl) (h.clients c cl hcl) hl').2
      | rsp =>
          have hcache : l'.sh.dns.cache = w.sh.dns.cache :=
            (routes_rspCase (hin c cl hcl) (h.clients c cl hcl) (rspStep_cases hl')).2
          show CacheOk dns l'.sh.dns.cache
          rw [hcache]
          exact h.cache
  · intro c cl' hcl'
    cases client_cases hs hcl' with
    | same hcl _ => exact h.clients c cl' hcl
    | @co side cl l' hrun hcl hstep heq _ =>
        rcases coOk_cases hok hs hrun hcl with ⟨eid, hdns⟩ | ⟨hside, -⟩
        · rw [dnsDone_clients hdns] at hcl'
          exact h.clients c cl' hcl'
        · rw [heq]
          cases side with
          | req =>
              exact (routes_reqStep hlong hside h.cache (hin c cl hcl) (h.clients c cl hcl) hstep).1
          | rsp =>
              exact (routes_rspCase (hin c cl hcl) (h.clients c cl hcl) (rspStep_cases hstep)).1
    | @resume side cl ret m _ hcl _ heq _ =>
        rw [heq]
        exact routes_resume (h.clients c cl hcl) side ret
    | @err cl i _ _ hcl _ heq =>
        rw [heq]
        exact routes_err (hin c cl hcl) (h.clients c cl hcl) i
    | new _ _ _ _ heq =>
        rw [heq]
        exact routes_new _ _

theorem resolves (hlong : ∀ host, DOMAIN_MAXLEN ≤ host.length → dns host = none)
    (h : Run step (fun w ch => w.resolvedBy dns ch) init w) : w.Resolves dns := by
  have hin : ∀ w, Run step (fun w ch => w.resolvedBy dns ch) init w →
      ∀ c cl, w.clients c = some cl → InRange cl := fun w hr c cl hcl => inRange hr hcl
  refine h.invariant_of (Resolves dns) hin ?_ ?_
  · exact ⟨fun t ht => absurd ht List.not_mem_nil, fun c cl hcl => absurd hcl (by simp [init])⟩
  · exact fun w w' ch hin hI hok hs => resolves_step hlong hin hI hok hs

end World

/-- In every run whose lookups are answered by `dns`, which knows no host that does not fit into
    the cache: whatever is cached for a host is its answer, whichever client it was for, and a
    request is only sent, has only been sent, and is only queued, to a connection whose endpoint
    is an address of its own host with its own port. -/
theorem request_routed {dns : Resolver}
    (hlong : ∀ host, DOMAIN_MAXLEN ≤ host.length → dns host = none) {w : World}
    (h : Run World.step (fun w ch => w.resolvedBy dns ch) World.init w) :
    (∀ t ∈ w.sh.dns.cache, dns t.1 = some t.2) ∧
    ∀ c cl, w.clients c = some cl →
      (∀ (α : Type) (k : ReqK α) (p : Io α) j s, cl.req = .io k p → k.sends = some (j, s) →
        cl.mem.Route dns j s) ∧
      (∀ t ∈ cl.hist.heads, cl.mem.Route dns t.2 t.1) ∧
      ∀ e ∈ cl.hist.appended, cl.mem.Route dns e.req e.server := by
  have hall := World.resolves hlong h
  refine ⟨hall.cache, fun c cl hcl => ⟨fun α k p j s hreq hk => ?_, ?_, ?_⟩⟩
  · have hpc := (hall.clients c cl hcl).pc
    rw [hreq] at hpc
    exact hpc j s hk
  · exact (hall.clients c cl hcl).heads
  · exact (hall.clients c cl hcl).appended

/-- The host "a" has one address. -/
def oneHost : Resolver := fun host =>
  if host = bytesOf "a" then some [⟨.inet, [1, 2, 3, 4]⟩] else none

/-- A client asks for a tunnel to port 1 of "a", which goes to the address of "a". -/
theorem request_routed_connect : ∃ (w : World) (cl : Client) (e : Entry),
    Run World.step (fun w ch => w.resolvedBy oneHost ch) World.init w ∧ w.clients 0 = some cl ∧
      cl.hist.appended = [e] ∧ cl.mem.Route oneHost e.req e.server := by
  have hd : (World.driveInit (World.resolvedBy oneHost) 300 connectRequest).any (fun w =>
      (w.clients 0).any fun cl => cl.hist.appended.length = 1) = true := by
    decide +kernel
  obtain ⟨w, hw, hp⟩ := Lib.exists_run_of_drive hd
  obtain ⟨cl, hcl, hlen⟩ := (Option.any_eq_true _ _).mp hp
  obtain ⟨e, he⟩ := List.length_eq_one_iff.mp (by simpa using hlen)
  have hlong : ∀ host : Bytes, DOMAIN_MAXLEN ≤ host.length → oneHost host = none := by
    intro host hle
    rw [oneHost, if_neg]
    rintro rfl
    exact absurd hle (by decide)
  refine ⟨w, cl, e, hw, hcl, he, ?_⟩
  exact ((request_routed hlong hw).2 0 cl hcl).2.2 e (by rw [he]; exact List.mem_singleton_self e)

end HttpProxy
