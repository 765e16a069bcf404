/-
  HttpProxy.Queue.Counts

  The reference counts of a client's connections and requests.  `Holds` says that
  they are exact when the locals of the request coroutine hold one connection and
  one request, or none; each operation on references has its effect on what is
  held.  A run keeps them exact as long as the response coroutine only takes a
  connection out of the pool that is the one it has served (`counts_exact`).
-/

import HttpProxy.Queue.Range
import HttpProxy.Notify.Context

namespace HttpProxy

open Lib Notify

-- ============================================================================
-- References
-- ============================================================================

namespace Client

variable (cl : Client)

/-- The references of the coroutines to the client connection. -/
def live : Nat :=
  (if cl.isFinished .req then 0 else 1) + (if cl.isFinished .rsp then 0 else 1)

/-- The references of the pool and of queued requests to a server connection. -/
def keptConn (i : ConnIx) : Nat :=
  (cl.cxt.pool.map (·.2)).count i + (cl.queued.map (·.server)).count i

/-- The references of queued requests to a request. -/
def keptReq (j : ReqIx) : Nat := (cl.queued.map (·.req)).count j

/-- The references there are to a connection. -/
def connRefs (i : ConnIx) : Nat :=
  if i = 0 then cl.live else cl.keptConn i + (if cl.req.server = some i then 1 else 0)

/-- The references there are to a request. -/
def reqRefs (j : ReqIx) : Nat := cl.keptReq j + (if cl.req.own = some j then 1 else 0)

end Client

/-- The counts are exact when the coroutines hold `n` references to the client, and a local of the
    request coroutine holds `server` and `own`. -/
structure Holds (cl : Client) (n : Nat) (server : Option ConnIx) (own : Option ReqIx) : Prop where
  client : cl.mem.cnts 0 = n
  conns : ∀ i, i ≠ 0 → cl.mem.cnts i = cl.keptConn i + (if server = some i then 1 else 0)
  reqs : ∀ j, cl.mem.reqCnts j = cl.keptReq j + (if own = some j then 1 else 0)

section

variable {l l' : Local} {cl : Client} {n : Nat} {server : Option ConnIx} {own : Option ReqIx}
  {s : ConnIx} {j : ReqIx}

theorem Holds.same (h : Holds l.cl n server own) (hcnts : l.SameCnts l')
    (hpool : l'.cl.cxt.pool = l.cl.cxt.pool) (hlist : l'.cl.cxt.list = l.cl.cxt.list) :
    Holds l'.cl n server own := by
  obtain ⟨hconns, hreqs⟩ := hcnts
  have hqueued : l'.cl.queued = l.cl.queued := by rw [Client.queued, Client.queued, hlist]
  constructor
  · rw [hconns]
    exact h.client
  · intro i hi
    rw [hconns, Client.keptConn, hpool, hqueued]
    exact h.conns i hi
  · intro k
    rw [hreqs, Client.keptReq, hqueued]
    exact h.reqs k

theorem Holds.congr {cl' : Client} (h : Holds cl n server own) (hmem : cl'.mem = cl.mem)
    (hcxt : cl'.cxt = cl.cxt) : Holds cl' n server own := by
  have hqueued : cl'.queued = cl.queued := by rw [Client.queued, Client.queued, hcxt]
  constructor
  · rw [hmem]
    exact h.client
  · intro i hi
    rw [hmem, Client.keptConn, hcxt, hqueued]
    exact h.conns i hi
  · intro k
    rw [hmem, Client.keptReq, hqueued]
    exact h.reqs k

/-- A reference is taken to a connection that is referred to. -/
theorem Holds.incref (h : Holds l.cl n none own) (hs : s ≠ 0) (hcnt : l.cl.mem.cnts s ≠ 0) :
    Holds (l.increfConn s).cl n (some s) own := by
  have hcnts := l.increfConn_cnt s hcnt
  have hkept (i : ConnIx) : (l.increfConn s).cl.keptConn i = l.cl.keptConn i := by
    simp [Client.keptConn, Client.queued]
  have hkeptReq (k : ReqIx) : (l.increfConn s).cl.keptReq k = l.cl.keptReq k := by
    simp [Client.keptReq, Client.queued]
  constructor
  · rw [hcnts, if_neg (Ne.symm hs)]
    exact h.client
  · intro i hi
    rw [hcnts, hkept, h.conns i hi]
    simp [eq_comm]
  · intro k
    rw [l.increfConn_reqCnts, hkeptReq]
    exact h.reqs k

/-- The reference of a local is dropped. -/
theorem Holds.decref (h : Holds l.cl n (some s) own) (hs : s ≠ 0) :
    Holds (l.decrefConn s).cl n none own := by
  have hcnt : l.cl.mem.cnts s ≠ 0 := by
    rw [h.conns s hs]
    simp
  have hcnts := l.decrefConn_cnt s hcnt
  have hkept (i : ConnIx) : (l.decrefConn s).cl.keptConn i = l.cl.keptConn i := by
    simp [Client.keptConn, Client.queued]
  have hkeptReq (k : ReqIx) : (l.decrefConn s).cl.keptReq k = l.cl.keptReq k := by
    simp [Client.keptReq, Client.queued]
  constructor
  · have h0 := hcnts 0
    rw [if_neg (Ne.symm hs)] at h0
    exact h0.trans h.client
  · intro i hi
    have hi' := hcnts i
    have hold := h.conns i hi
    rw [hkept]
    simp only [Option.some.injEq, eq_comm (a := s)] at hold
    simp only [reduceCtorEq, if_false]
    omega
  · intro k
    rw [l.decrefConn_reqCnts, hkeptReq]
    exact h.reqs k

/-- Of a connection that could not be made. -/
theorem Holds.decrefNull (h : Holds l.cl n (some s) own) (hs : s ≠ 0) :
    Holds (l.decrefConnNull s).cl n none own := by
  have hcnt : l.cl.mem.cnts s ≠ 0 := by
    rw [h.conns s hs]
    simp
  have hcnts := l.decrefConnNull_cnt s hcnt
  have hkept (i : ConnIx) : (l.decrefConnNull s).cl.keptConn i = l.cl.keptConn i := by
    simp [Client.keptConn, Client.queued]
  have hkeptReq (k : ReqIx) : (l.decrefConnNull s).cl.keptReq k = l.cl.keptReq k := by
    simp [Client.keptReq, Client.queued]
  constructor
  · have h0 := hcnts 0
    rw [if_neg (Ne.symm hs)] at h0
    exact h0.trans h.client
  · intro i hi
    have hi' := hcnts i
    have hold := h.conns i hi
    rw [hkept]
    simp only [Option.some.injEq, eq_comm (a := s)] at hold
    simp only [reduceCtorEq, if_false]
    omega
  · intro k
    rw [l.decrefConnNull_reqCnts, hkeptReq]
    exact h.reqs k

theorem Holds.decrefReq (h : Holds l.cl n server (some j)) :
    Holds (l.decrefReq j).cl n server none := by
  have hcnt : l.cl.mem.reqCnts j ≠ 0 := by
    rw [h.reqs j]
    simp
  have hcnts := l.decrefReq_cnt j hcnt
  have hkept (i : ConnIx) : (l.decrefReq j).cl.keptConn i = l.cl.keptConn i := by
    simp [Client.keptConn, Client.queued]
  have hkeptReq (k : ReqIx) : (l.decrefReq j).cl.keptReq k = l.cl.keptReq k := by
    simp [Client.keptReq, Client.queued]
  constructor
  · rw [l.decrefReq_cnts]
    exact h.client
  · intro i hi
    rw [l.decrefReq_cnts, hkept]
    exact h.conns i hi
  · intro k
    have hk := hcnts k
    have hold := h.reqs k
    rw [hkeptReq]
    simp only [Option.some.injEq, eq_comm (a := j)] at hold
    simp only [reduceCtorEq, if_false]
    omega

/-- A new connection has one reference, that of the local. -/
theorem Holds.newConn (h : Holds l.cl n none own) (hin : Allocated l.cl) (fd : Fd) (ep : Endpoint)
    (ok : Bool) : Holds (l.newConn fd ep ok).cl n (some l.cl.mem.nconn) own := by
  have hpos : l.cl.mem.nconn ≠ 0 := Nat.ne_of_gt hin.client
  -- nothing refers to it yet
  have hfree : l.cl.keptConn l.cl.mem.nconn = 0 := by
    rw [Client.keptConn, List.count_eq_zero.mpr, List.count_eq_zero.mpr]
    · intro hmem
      obtain ⟨e, he, heq⟩ := List.mem_map.mp hmem
      exact absurd (hin.queued e he).1.2 (by rw [heq]; exact Nat.lt_irrefl _)
    · intro hmem
      obtain ⟨t, ht, heq⟩ := List.mem_map.mp hmem
      exact absurd (hin.pool t ht).2 (by rw [heq]; exact Nat.lt_irrefl _)
  constructor
  · rw [l.newConn_cnt, if_neg (Ne.symm hpos)]
    exact h.client
  · intro i hi
    show _ = l.cl.keptConn i + _
    rw [l.newConn_cnt]
    by_cases hnew : i = l.cl.mem.nconn
    · rw [hnew, hfree]
      simp
    · rw [if_neg hnew, h.conns i hi]
      simp [Ne.symm hnew]
  · exact h.reqs

/-- So does a new request. -/
theorem Holds.begun (h : Holds l.cl n server none) (hin : Allocated l.cl) (data : NetData)
    (kind : HandlerKind) : Holds (l.begun data kind).cl n server (some l.cl.mem.nreq) := by
  have hfree : l.cl.keptReq l.cl.mem.nreq = 0 := by
    rw [Client.keptReq, List.count_eq_zero]
    intro hmem
    obtain ⟨e, he, heq⟩ := List.mem_map.mp hmem
    exact absurd (hin.queued e he).2 (by rw [heq]; exact Nat.lt_irrefl _)
  refine ⟨h.client, h.conns, fun k => ?_⟩
  show _ = l.cl.keptReq k + _
  rw [l.begun_cnt]
  by_cases hnew : k = l.cl.mem.nreq
  · rw [hnew, hfree]
    simp
  · rw [if_neg hnew, h.reqs k]
    simp [Ne.symm hnew]

/-- The reference of the local becomes one of the pool. -/
theorem Holds.pooled (h : Holds l.cl n (some s) own) : Holds (l.pooled s).cl n none own := by
  -- it has just been initialised, so that it is not closed
  have hstat : ((l.connInit s).cl.mem.conns s).stat ≠ .closed := by
    simp [Local.connInit, Mem.setConn]
  have hmem : (l.pooled s).cl.mem = (l.connInit s).cl.mem := by
    unfold Local.pooled
    dsimp only
    rw [if_neg hstat]
  obtain ⟨hcnts, hreqCnts⟩ := l.connInit_cnts s
  rw [← hmem] at hcnts hreqCnts
  have hcxt := (l.pooled_frame s).1
  have hqueued : (l.pooled s).cl.queued = l.cl.queued := by
    rw [Client.queued, Client.queued, hcxt]
    rfl
  have hkept (i : ConnIx) : (l.pooled s).cl.keptConn i =
      l.cl.keptConn i + (if s = i then 1 else 0) := by
    rw [Client.keptConn, Client.keptConn, hqueued, hcxt, Cxt.poolAdd, List.map_append,
      List.count_append, List.map_singleton, List.count_singleton]
    simp only [beq_iff_eq]
    omega
  constructor
  · rw [hcnts]
    exact h.client
  · intro i hi
    rw [hcnts, h.conns i hi, hkept]
    simp
  · intro k
    rw [hreqCnts, Client.keptReq, hqueued]
    exact h.reqs k

/-- What the pool loses with the entry found under a key. -/
theorem count_poolDel {cxt : Cxt} {ep : Endpoint} (hfind : cxt.poolFind ep = some s) (i : ConnIx) :
    ((cxt.poolDel ep).pool.map (·.2)).count i + (if i = s then 1 else 0) =
      (cxt.pool.map (·.2)).count i := by
  unfold Cxt.poolFind at hfind
  show ((cxt.pool.eraseP (·.1 = ep)).map (·.2)).count i + _ = _
  generalize cxt.pool = pool at hfind
  induction pool with
  | nil => exact absurd hfind (by simp)
  | cons t pool ih =>
      by_cases ht : t.1 = ep
      · rw [List.eraseP_cons_of_pos (by simpa using ht), List.map_cons, List.count_cons]
        rw [List.find?_cons_of_pos (by simpa using ht), Option.map_some, Option.some.injEq] at hfind
        rw [hfind]
        simp only [beq_iff_eq, eq_comm (a := s)]
      · rw [List.eraseP_cons_of_neg (by simpa using ht), List.map_cons, List.map_cons,
          List.count_cons, List.count_cons]
        rw [List.find?_cons_of_neg (by simpa using ht)] at hfind
        have hi := ih hfind
        omega

/-- A connection leaves the pool, with the reference of the pool. -/
theorem Holds.evicted (h : Holds l.cl n server own) {ep : Endpoint}
    (hfind : l.cl.cxt.poolFind ep = some s) (hs : s ≠ 0) :
    Holds (l.evicted ep s).cl n server own := by
  have hcount := count_poolDel hfind
  have hcnt : l.cl.mem.cnts s ≠ 0 := by
    have hpool := hcount s
    rw [h.conns s hs, Client.keptConn]
    simp only [if_true] at hpool
    omega
  have hcnts := Local.decrefConn_cnt { l with cl.cxt := l.cl.cxt.poolDel ep } s hcnt
  have hcxt := (l.evicted_frame ep s).1
  have hqueued : (l.evicted ep s).cl.queued = l.cl.queued := by
    rw [Client.queued, Client.queued, hcxt]
    rfl
  have hkept (i : ConnIx) : (l.evicted ep s).cl.keptConn i + (if i = s then 1 else 0) =
      l.cl.keptConn i := by
    have hi := hcount i
    rw [Client.keptConn, Client.keptConn, hqueued, hcxt]
    omega
  have hkeptReq (k : ReqIx) : (l.evicted ep s).cl.keptReq k = l.cl.keptReq k := by
    rw [Client.keptReq, Client.keptReq, hqueued]
  constructor
  · have h0 := hcnts 0
    rw [if_neg (Ne.symm hs)] at h0
    exact h0.trans h.client
  · intro i hi
    have hi' := hcnts i
    have hold := h.conns i hi
    have hk := hkept i
    show (Local.decrefConn { l with cl.cxt := l.cl.cxt.poolDel ep } s).cl.mem.cnts i = _
    have hsame : ({ l with cl.cxt := l.cl.cxt.poolDel ep } : Local).cl.mem.cnts i =
        l.cl.mem.cnts i := rfl
    omega
  · intro k
    rw [hkeptReq]
    exact (congrFun (Local.decrefConn_reqCnts { l with cl.cxt := l.cl.cxt.poolDel ep } s) k).trans
      (h.reqs k)

/-- A queued request has a reference to its server and one to itself. -/
theorem Holds.append (h : Holds l.cl n (some s) (some j)) (hfifo : Fifo l.cl) (hs : s ≠ 0) :
    Holds (l.appendEntry j s).cl n (some s) (some j) := by
  have hcnt : l.cl.mem.cnts s ≠ 0 := by
    rw [h.conns s hs]
    simp
  have hreqCnt : (l.increfConn s).cl.mem.reqCnts j ≠ 0 := by
    rw [l.increfConn_reqCnts, h.reqs j]
    simp
  have hmem := (l.appendEntry_frame j s).2.2.2.2
  have hqueued : (l.appendEntry j s).cl.queued =
      l.cl.queued ++ [{ server := s, req := j, no := l.cl.hist.seq }] :=
    queued_push hfifo (by simp)
  have hcnts (i : ConnIx) : (l.appendEntry j s).cl.mem.cnts i =
      l.cl.mem.cnts i + (if i = s then 1 else 0) := by
    rw [hmem, (l.increfConn s).increfReq_cnts, l.increfConn_cnt s hcnt]
  have hreqCnts (k : ReqIx) : (l.appendEntry j s).cl.mem.reqCnts k =
      l.cl.mem.reqCnts k + (if k = j then 1 else 0) := by
    rw [hmem, (l.increfConn s).increfReq_cnt j hreqCnt, l.increfConn_reqCnts]
  constructor
  · rw [hcnts, if_neg (Ne.symm hs)]
    exact h.client
  · intro i hi
    rw [hcnts, h.conns i hi, Client.keptConn, Client.keptConn, hqueued, List.map_append,
      List.count_append, List.map_singleton, List.count_singleton]
    have hpool : (l.appendEntry j s).cl.cxt.pool = l.cl.cxt.pool := by simp
    rw [hpool]
    simp only [beq_iff_eq, eq_comm (a := s)]
    omega
  · intro k
    rw [hreqCnts, h.reqs k, Client.keptReq, Client.keptReq, hqueued, List.map_append,
      List.count_append, List.map_singleton, List.count_singleton]
    simp only [beq_iff_eq, eq_comm (a := j)]
    omega

/-- They are dropped with it. -/
theorem Holds.pop (h : Holds l.cl n server own) {node : Nat} {e : Entry} (hs : e.server ≠ 0)
    (hqueued : l.cl.queued = e :: (l.rspPop node e).cl.queued) :
    Holds (l.rspPop node e).cl n server own := by
  have hcount (i : ConnIx) : l.cl.keptConn i =
      (l.rspPop node e).cl.keptConn i + (if i = e.server then 1 else 0) := by
    have hpool : (l.rspPop node e).cl.cxt.pool = l.cl.cxt.pool := by simp [Local.rspPop]
    rw [Client.keptConn, Client.keptConn, hqueued, hpool, List.map_cons, List.count_cons]
    simp only [beq_iff_eq, eq_comm (a := e.server)]
    omega
  have hreqCount (k : ReqIx) : l.cl.keptReq k =
      (l.rspPop node e).cl.keptReq k + (if k = e.req then 1 else 0) := by
    rw [Client.keptReq, Client.keptReq, hqueued, List.map_cons, List.count_cons]
    simp only [beq_iff_eq, eq_comm (a := e.req)]
  have hcnt : l.cl.mem.cnts e.server ≠ 0 := by
    rw [h.conns _ hs, hcount]
    simp only [if_true]
    omega
  have hreqCnt : (l.decrefConn e.server).cl.mem.reqCnts e.req ≠ 0 := by
    rw [l.decrefConn_reqCnts, h.reqs, hreqCount]
    simp only [if_true]
    omega
  have hcnts (i : ConnIx) : (l.rspPop node e).cl.mem.cnts i + (if i = e.server then 1 else 0) =
      l.cl.mem.cnts i := by
    rw [← l.decrefConn_cnt e.server hcnt i]
    show ((l.decrefConn e.server).decrefReq e.req).cl.mem.cnts i + _ = _
    rw [(l.decrefConn e.server).decrefReq_cnts]
  have hreqCnts (k : ReqIx) : (l.rspPop node e).cl.mem.reqCnts k + (if k = e.req then 1 else 0) =
      l.cl.mem.reqCnts k := by
    rw [← l.decrefConn_reqCnts e.server, ← (l.decrefConn e.server).decrefReq_cnt e.req hreqCnt k]
    rfl
  constructor
  · have h0 := hcnts 0
    rw [if_neg (Ne.symm hs)] at h0
    exact h0.trans h.client
  · intro i hi
    have h₁ := hcnts i
    have h₂ := h.conns i hi
    have h₃ := hcount i
    omega
  · intro k
    have h₁ := hreqCnts k
    have h₂ := h.reqs k
    have h₃ := hreqCount k
    omega

/-- What the pool holds is dropped. -/
theorem dropPool_cnt (ts : List (Endpoint × ConnIx))
    (h : ∀ i, (ts.map (·.2)).count i ≤ l.cl.mem.cnts i) :
    (∀ i, (l.dropPool ts).cl.mem.cnts i + (ts.map (·.2)).count i = l.cl.mem.cnts i) ∧
      (l.dropPool ts).cl.mem.reqCnts = l.cl.mem.reqCnts := by
  induction ts generalizing l with
  | nil => exact ⟨fun _ => rfl, rfl⟩
  | cons t ts ih =>
      have hle (i : ConnIx) : (ts.map (·.2)).count i + (if i = t.2 then 1 else 0) ≤
          l.cl.mem.cnts i := by
        have hi := h i
        rw [List.map_cons, List.count_cons] at hi
        simpa only [beq_iff_eq, eq_comm (a := t.2)] using hi
      have hclose := (l.connClose_cnts t.2).1
      have hcnt : (l.connClose t.2).cl.mem.cnts t.2 ≠ 0 := by
        have ht := hle t.2
        rw [hclose]
        simp only [if_true] at ht
        omega
      have hdec (i : ConnIx) : ((l.connClose t.2).decrefConn t.2).cl.mem.cnts i +
          (if i = t.2 then 1 else 0) = l.cl.mem.cnts i := by
        rw [(l.connClose t.2).decrefConn_cnt t.2 hcnt i, hclose]
      obtain ⟨hcnts, hreqs⟩ := ih (l := (l.connClose t.2).decrefConn t.2) fun i => by
        have h₁ := hle i
        have h₂ := hdec i
        omega
      refine ⟨fun i => ?_, ?_⟩
      · have h₁ := hcnts i
        have h₂ := hdec i
        rw [List.map_cons, List.count_cons]
        simp only [beq_iff_eq, eq_comm (a := t.2)]
        show (((l.connClose t.2).decrefConn t.2).dropPool ts).cl.mem.cnts i + _ = _
        omega
      · exact hreqs.trans
          (((l.connClose t.2).decrefConn_reqCnts t.2).trans (l.connClose_cnts t.2).2)

/-- What the list holds is dropped. -/
theorem dropList_cnt (es : List (Nat × Entry))
    (h : ∀ i, (es.map (·.2.server)).count i ≤ l.cl.mem.cnts i)
    (hreq : ∀ k, (es.map (·.2.req)).count k ≤ l.cl.mem.reqCnts k) :
    (∀ i, (l.dropList es).cl.mem.cnts i + (es.map (·.2.server)).count i = l.cl.mem.cnts i) ∧
      ∀ k, (l.dropList es).cl.mem.reqCnts k + (es.map (·.2.req)).count k = l.cl.mem.reqCnts k := by
  induction es generalizing l with
  | nil => exact ⟨fun _ => rfl, fun _ => rfl⟩
  | cons e es ih =>
      have hle (i : ConnIx) : (es.map (·.2.server)).count i + (if i = e.2.server then 1 else 0) ≤
          l.cl.mem.cnts i := by
        have hi := h i
        rw [List.map_cons, List.count_cons] at hi
        simpa only [beq_iff_eq, eq_comm (a := e.2.server)] using hi
      have hreqLe (k : ReqIx) : (es.map (·.2.req)).count k + (if k = e.2.req then 1 else 0) ≤
          l.cl.mem.reqCnts k := by
        have hk := hreq k
        rw [List.map_cons, List.count_cons] at hk
        simpa only [beq_iff_eq, eq_comm (a := e.2.req)] using hk
      have hcnt : l.cl.mem.cnts e.2.server ≠ 0 := by
        have hs := hle e.2.server
        simp only [if_true] at hs
        omega
      have hreqCnt : (l.decrefConn e.2.server).cl.mem.reqCnts e.2.req ≠ 0 := by
        have hk := hreqLe e.2.req
        rw [l.decrefConn_reqCnts]
        simp only [if_true] at hk
        omega
      have hdec (i : ConnIx) : ((l.decrefConn e.2.server).decrefReq e.2.req).cl.mem.cnts i +
          (if i = e.2.server then 1 else 0) = l.cl.mem.cnts i := by
        rw [(l.decrefConn e.2.server).decrefReq_cnts, l.decrefConn_cnt e.2.server hcnt i]
      have hreqDec (k : ReqIx) : ((l.decrefConn e.2.server).decrefReq e.2.req).cl.mem.reqCnts k +
          (if k = e.2.req then 1 else 0) = l.cl.mem.reqCnts k := by
        rw [(l.decrefConn e.2.server).decrefReq_cnt e.2.req hreqCnt k, l.decrefConn_reqCnts]
      obtain ⟨hcnts, hreqs⟩ := ih (l := (l.decrefConn e.2.server).decrefReq e.2.req)
        (fun i => by
          have h₁ := hle i
          have h₂ := hdec i
          omega)
        fun k => by
          have h₁ := hreqLe k
          have h₂ := hreqDec k
          omega
      refine ⟨fun i => ?_, fun k => ?_⟩
      · have h₁ := hcnts i
        have h₂ := hdec i
        rw [List.map_cons, List.count_cons]
        simp only [beq_iff_eq, eq_comm (a := e.2.server)]
        show (((l.decrefConn e.2.server).decrefReq e.2.req).dropList es).cl.mem.cnts i + _ = _
        omega
      · have h₁ := hreqs k
        have h₂ := hreqDec k
        rw [List.map_cons, List.count_cons]
        simp only [beq_iff_eq, eq_comm (a := e.2.req)]
        show (((l.decrefConn e.2.server).decrefReq e.2.req).dropList es).cl.mem.reqCnts k + _ = _
        omega

/-- A coroutine drops its reference to the client. -/
theorem Holds.decrefClient (h : Holds l.cl n server own) (hn : n ≠ 0) :
    Holds (l.decrefConn 0).cl (n - 1) server own := by
  have hcnts := l.decrefConn_cnt 0 (by rw [h.client]; exact hn)
  have hqueued : (l.decrefConn 0).cl.queued = l.cl.queued := by simp [Client.queued]
  constructor
  · have h₀ := hcnts 0
    rw [h.client, if_pos rfl] at h₀
    omega
  · intro i hi
    have h₁ := hcnts i
    rw [if_neg hi] at h₁
    have hpool : (l.decrefConn 0).cl.cxt.pool = l.cl.cxt.pool := by simp
    rw [Client.keptConn, hqueued, hpool]
    exact h₁.trans (h.conns i hi)
  · intro k
    rw [l.decrefConn_reqCnts, Client.keptReq, hqueued]
    exact h.reqs k

theorem reqCleanup_torn : l.reqCleanup.cl.cxt.pool = [] ∧ l.reqCleanup.cl.queued = [] := by
  have hlist : l.reqCleanup.cl.cxt.list = .empty := by simp [Local.reqCleanup, Local.leave]
  refine ⟨by simp [Local.reqCleanup, Local.leave], ?_⟩
  rw [Client.queued, hlist, LinkedQueue.cells_empty]
  rfl

/-- The context is torn down, and with it the reference to the client. -/
theorem reqCleanup_holds (h : Holds l.cl n none none) (hin : Allocated l.cl) (hn : n ≠ 0) :
    Holds l.reqCleanup.cl (n - 1) none none := by
  have hqueue : l.cl.cxt.list.cells.map (·.2.server) = l.cl.queued.map (·.server) := by
    rw [Client.queued, List.map_map]
    rfl
  have hqueueReq : l.cl.cxt.list.cells.map (·.2.req) = l.cl.queued.map (·.req) := by
    rw [Client.queued, List.map_map]
    rfl
  have hpos (i : ConnIx) (hi : i = 0) : l.cl.keptConn i = 0 := by
    rw [Client.keptConn, List.count_eq_zero.mpr, List.count_eq_zero.mpr]
    · intro hmem
      obtain ⟨e, he, heq⟩ := List.mem_map.mp hmem
      exact absurd (hin.queued e he).1.1 (by rw [heq, hi]; exact Nat.lt_irrefl _)
    · intro hmem
      obtain ⟨t, ht, heq⟩ := List.mem_map.mp hmem
      exact absurd (hin.pool t ht).1 (by rw [heq, hi]; exact Nat.lt_irrefl _)
  -- what the pool and the list hold is there to be dropped
  have hall (i : ConnIx) : l.cl.keptConn i ≤ l.cl.mem.cnts i := by
    by_cases hi : i = 0
    · rw [hpos i hi]
      exact Nat.zero_le _
    · rw [h.conns i hi]
      exact Nat.le_add_right _ _
  obtain ⟨hpool, hpoolReq⟩ := dropPool_cnt (l := l) l.cl.cxt.pool fun i => by
    have hi := hall i
    rw [Client.keptConn] at hi
    omega
  let l₁ : Local := { l.dropPool l.cl.cxt.pool with cl.cxt.pool := [] }
  have hcells : l₁.cl.cxt.list.cells = l.cl.cxt.list.cells := by simp [l₁]
  rw [← hcells] at hqueue hqueueReq
  obtain ⟨hlist, hlistReq⟩ := dropList_cnt (l := l₁) l₁.cl.cxt.list.cells
    (fun i => by
      have hi := hall i
      have hi' := hpool i
      rw [Client.keptConn] at hi
      rw [hqueue]
      show _ ≤ (l.dropPool l.cl.cxt.pool).cl.mem.cnts i
      omega)
    fun k => by
      rw [hqueueReq]
      show _ ≤ (l.dropPool l.cl.cxt.pool).cl.mem.reqCnts k
      rw [hpoolReq, h.reqs k, Client.keptReq]
      exact Nat.le_add_right _ _
  let l₂ : Local := l₁.dropList l₁.cl.cxt.list.cells
  have hcnts (i : ConnIx) : l₂.cl.mem.cnts i + l.cl.keptConn i = l.cl.mem.cnts i := by
    have h₁ : (l.dropPool l.cl.cxt.pool).cl.mem.cnts i + _ = _ := hpool i
    have h₂ : l₂.cl.mem.cnts i + _ = (l.dropPool l.cl.cxt.pool).cl.mem.cnts i := hlist i
    rw [hqueue] at h₂
    rw [Client.keptConn]
    omega
  have hreqCnts (k : ReqIx) : l₂.cl.mem.reqCnts k + l.cl.keptReq k = l.cl.mem.reqCnts k := by
    have h₂ : l₂.cl.mem.reqCnts k + _ = (l.dropPool l.cl.cxt.pool).cl.mem.reqCnts k := hlistReq k
    rw [hqueueReq, hpoolReq] at h₂
    exact h₂
  have hclient : l₂.cl.mem.cnts 0 = n := by
    have h₀ := hcnts 0
    rw [hpos 0 rfl, h.client] at h₀
    exact h₀
  let l₃ : Local := { l₂ with
    cl.cxt.list := .empty
    cl.hist.npop := l₂.cl.hist.appended.length
    sh.ev := l₂.sh.ev.eventFreeId l₂.cl.cxt.evReq }
  have hqueued : l₃.cl.queued = [] := by
    show LinkedQueue.empty.cells.map (·.2) = ([] : List Entry)
    rw [LinkedQueue.cells_empty]
    rfl
  have hempty : l₃.cl.cxt.pool = [] := by simp [l₃, l₂, l₁]
  have hholds : Holds l₃.cl n none none := by
    refine ⟨hclient, fun i hi => ?_, fun k => ?_⟩
    · have h₁ := hcnts i
      have h₂ := h.conns i hi
      rw [Client.keptConn, hempty, hqueued]
      simp only [reduceCtorEq, if_false] at h₂ ⊢
      show l₂.cl.mem.cnts i = 0
      omega
    · have h₁ := hreqCnts k
      have h₂ := h.reqs k
      rw [Client.keptReq, hqueued]
      simp only [reduceCtorEq, if_false] at h₂ ⊢
      show l₂.cl.mem.reqCnts k = 0
      omega
  obtain ⟨hdone, hconns, hreqs⟩ := hholds.decrefClient hn
  exact ⟨hdone, hconns, hreqs⟩

-- ============================================================================
-- The steps
-- ============================================================================

/-- The counts are exact; after the teardown nothing is kept. -/
structure Counted (cl : Client) : Prop where
  holds : Holds cl cl.live cl.req.server cl.req.own
  torn : cl.isFinished .req = true → cl.cxt.pool = [] ∧ cl.queued = []

/-- The response coroutine does not take a connection out of the pool that is not the one it has
    served. -/
def Local.ownEntry (side : Side) (l : Local) (_ : Choice) : Bool :=
  match side with
  | .req => true
  | .rsp =>
      match l.cl.rsp with
      | .serve _ e (.ret _) =>
          (l.cl.mem.conns e.server).stat ≠ .closed ||
            (l.cl.cxt.poolFind (l.cl.mem.conns e.server).ep).all (· = e.server)
      | _ => true

/-- Steps that keep the counts exact. -/
def World.countsOk (w : World) (ch : Choice) : Bool := w.idsLeft && w.coOk Local.ownEntry ch

theorem isFinished_req (h : cl.req.pos ≠ .finished) : cl.isFinished .req = false := by
  rw [← World.peer_isFinished]
  exact decide_eq_false h

theorem isFinished_rsp (h : cl.rsp.pos ≠ .finished) : cl.isFinished .rsp = false := by
  rw [← World.peer_isFinished]
  exact decide_eq_false h

/-- The request coroutine goes on, holding `server` and `own`. -/
theorem Counted.step (hs : ReqCase l l') (h : Holds cl l.cl.live server own)
    (hmem : l'.cl.mem = cl.mem) (hcxt : l'.cl.cxt = cl.cxt) (hserver : l'.cl.req.server = server)
    (hown : l'.cl.req.own = own) (hlive : l'.cl.isFinished .req = false) : Counted l'.cl := by
  have hlive' : l.cl.isFinished .req = false := isFinished_req hs.live
  have hrsp : l'.cl.isFinished .rsp = l.cl.isFinished .rsp := by
    rw [Client.isFinished, Client.isFinished, hs.rsp_eq]
  refine ⟨?_, fun hfin => absurd (hlive.symm.trans hfin) (by simp)⟩
  rw [hserver, hown, Client.live, hlive, hrsp]
  rw [Client.live, hlive'] at h
  exact h.congr hmem hcxt

theorem gotServer_holds (h : Holds l.cl n (some s) (some j)) (hfifo : Fifo l.cl) (hs : s ≠ 0) :
    Holds (l.gotServer j s).cl n (some s) (some j) ∧ (l.gotServer j s).cl.req.server = some s ∧
      (l.gotServer j s).cl.req.own = some j ∧ (l.gotServer j s).cl.isFinished .req = false := by
  have hgot := l.gotServer_cases j s
  generalize l.gotServer j s = l₂ at hgot ⊢
  cases hgot with
  | http hhttp =>
      exact ⟨h.same (l.withHost_cnts j) rfl rfl, rfl, rfl, rfl⟩
  | connect hconnect =>
      have happend := h.append hfifo hs
      rw [← l.connected_cl j s] at happend
      exact ⟨happend.same ⟨rfl, rfl⟩ rfl rfl, rfl, rfl, rfl⟩

theorem gotNewConn_holds (h : Holds l.cl n (some s) (some j)) (hfifo : Fifo l.cl) (hs : s ≠ 0) :
    Holds (l.gotNewConn j s).cl n (some s) (some j) ∧ (l.gotNewConn j s).cl.req.server = some s ∧
      (l.gotNewConn j s).cl.req.own = some j ∧ (l.gotNewConn j s).cl.isFinished .req = false := by
  have hpooled := h.pooled
  have hcnt : (l.pooled s).cl.mem.cnts s ≠ 0 := by
    rw [hpooled.conns s hs]
    simp [Client.keptConn, Cxt.poolAdd]
  rw [Local.gotNewConn_eq]
  refine gotServer_holds (hpooled.incref hs hcnt) ?_ hs
  exact hfifo.of_same ⟨by simp [Cxt.poolAdd], by simp, by simp⟩ (by simpa using hfifo.served)

theorem counted_reqStep (hfifo : Fifo l.cl) (hin : InRange l.cl) (h : Counted l.cl)
    (hs : ReqCase l l') : Counted l'.cl := by
  have hcase := hs
  -- the coroutine holds what it held
  have hsame {pc : ReqPc} (hreq : l.cl.req = pc) (hcnts : l.SameCnts l')
      (hpool : l'.cl.cxt.pool = l.cl.cxt.pool) (hlist : l'.cl.cxt.list = l.cl.cxt.list)
      (hserver : l'.cl.req.server = pc.server) (hown : l'.cl.req.own = pc.own)
      (hlive : l'.cl.isFinished .req = false) : Counted l'.cl := by
    rw [← hreq] at hserver hown
    exact .step hcase (h.holds.same hcnts hpool hlist) rfl rfl hserver hown hlive
  cases hs with
  | @io α k p p' l₁ hreq hio =>
      obtain ⟨hserver, hown, -⟩ := ReqPc.io_holds k p p'
      exact hsame hreq hio.sameEps.2 (congrArg Cxt.pool hio.cxt_eq) (congrArg Cxt.list hio.cxt_eq)
        hserver hown rfl
  | @refused data kind hreq =>
      have hold := h.holds
      rw [hreq] at hold
      exact .step hcase (hold.begun hin.toAllocated data kind) rfl rfl rfl rfl rfl
  | @dispatch data kind hreq hkind hparse =>
      have hold := h.holds
      rw [hreq] at hold
      exact .step hcase (hold.begun hin.toAllocated data kind) rfl rfl rfl rfl rfl
  | @answeredBad j u hreq =>
      have hold := h.holds
      rw [hreq] at hold
      exact .step hcase hold.decrefReq rfl rfl rfl rfl rfl
  | @answeredGateway j server u hreq =>
      have hold := h.holds
      rw [hreq] at hold
      cases server with
      | none => exact .step hcase hold.decrefReq rfl rfl rfl rfl rfl
      | some s =>
          have hs := (hin.server s (by rw [hreq]; rfl)).1
          exact .step hcase (hold.decref (Nat.ne_of_gt hs)).decrefReq rfl rfl rfl rfl rfl
  | @forwarded j s head hreq =>
      have hold := h.holds
      rw [hreq] at hold
      have hs := (hin.server s (by rw [hreq]; rfl)).1
      have happend := hold.append hfifo (Nat.ne_of_gt hs)
      rw [← l.forwarded_cl j s] at happend
      exact .step hcase happend rfl rfl rfl rfl rfl
  | @notForwarded j s head ret hreq hret =>
      have hold := h.holds
      rw [hreq] at hold
      have hs := (hin.server s (by rw [hreq]; rfl)).1
      exact .step hcase (hold.decref (Nat.ne_of_gt hs)) rfl rfl rfl rfl rfl
  | @bodyDone j s hreq =>
      have hold := h.holds
      rw [hreq] at hold
      have hs := (hin.server s (by rw [hreq]; rfl)).1
      exact .step hcase (hold.decref (Nat.ne_of_gt hs)).decrefReq rfl rfl rfl rfl rfl
  | @tunnelDone j s ret hreq =>
      have hold := h.holds
      rw [hreq] at hold
      have hs := (hin.server s (by rw [hreq]; rfl)).1
      exact .step hcase (hold.decref (Nat.ne_of_gt hs)).decrefReq rfl rfl rfl rfl rfl
  | @evict j rp rps s hreq hmain hfamily hfind hstat =>
      have hold := h.holds
      rw [hreq] at hold
      have hs := (hin.pool _ (Cxt.mem_of_poolFind hfind)).1
      exact .step hcase (hold.evicted hfind (Nat.ne_of_gt hs)) rfl rfl rfl rfl rfl
  | @reuse j rp rps s hreq hfind hstat =>
      have hold := h.holds
      rw [hreq] at hold
      have hmem := Cxt.mem_of_poolFind hfind
      have hs := Nat.ne_of_gt (hin.pool _ hmem).1
      have hcnt : l.cl.mem.cnts s ≠ 0 := by
        have hpos : 0 < (l.cl.cxt.pool.map (·.2)).count s :=
          List.count_pos_iff.mpr (List.mem_map_of_mem (f := (·.2)) hmem)
        rw [hold.conns s hs, Client.keptConn]
        omega
      obtain ⟨hgot, hserver, hown, hlive⟩ := gotServer_holds (hold.incref hs hcnt)
        (hfifo.of_same (l.increfConn_frame s).sameList (by simpa using hfifo.served)) hs
      exact .step hcase hgot rfl rfl hserver hown hlive
  | @newConn j ep rps fd ok hreq hfd =>
      have hold := h.holds
      rw [hreq] at hold
      obtain ⟨hgot, hserver, hown, hlive⟩ :=
        gotNewConn_holds (hold.newConn hin.toAllocated fd ep ok)
        (hfifo.of_same (l.newConn_frame fd ep ok).sameList hfifo.served)
        (Nat.ne_of_gt hin.client)
      exact .step hcase hgot rfl rfl hserver hown hlive
  | @connecting j ep rps fd hreq hfd =>
      have hold := h.holds
      rw [hreq] at hold
      exact .step hcase (hold.newConn hin.toAllocated fd ep true) rfl rfl rfl rfl rfl
  | @notConnected j i rps hreq =>
      have hold := h.holds
      rw [hreq] at hold
      have hi := (hin.server i (by rw [hreq]; rfl)).1
      have hdel : Holds (l.connDel i).cl l.cl.live (some i) (some j) :=
        hold.same (l.connDel_cnts i) rfl rfl
      exact .step hcase (hdel.decrefNull (Nat.ne_of_gt hi)) rfl rfl rfl rfl rfl
  | @connected j i rps ret hreq hret =>
      have hold := h.holds
      rw [hreq] at hold
      have hi := (hin.server i (by rw [hreq]; rfl)).1
      obtain ⟨hgot, hserver, hown, hlive⟩ := gotNewConn_holds hold hfifo (Nat.ne_of_gt hi)
      exact .step hcase hgot rfl rfl hserver hown hlive
  | done hreq =>
      have hdone : l.SameCnts l.reqDone ∧ l.reqDone.cl.cxt.pool = l.cl.cxt.pool ∧
          l.reqDone.cl.cxt.list = l.cl.cxt.list ∧ l.reqDone.cl.req.server = none ∧
          l.reqDone.cl.req.own = none ∧ l.reqDone.cl.isFinished .req = false := by
        unfold Local.reqDone
        dsimp only
        split <;> exact ⟨⟨rfl, rfl⟩, rfl, rfl, rfl, rfl, rfl⟩
      obtain ⟨hcnts, hpool, hlist, hserver, hown, hlive⟩ := hdone
      exact hsame hreq hcnts hpool hlist hserver hown hlive
  | @resolved j eid res hreq =>
      obtain ⟨rps, hreq'⟩ := (l.dnsResolved_frame j eid res).2.2
      refine hsame hreq (by simp [Local.SameCnts]) (by simp) (by simp) ?_ ?_ ?_
      · rw [hreq']
        rfl
      · rw [hreq']
        rfl
      · rw [Client.isFinished, hreq']
  | cleanup hreq =>
      have hold := h.holds
      rw [hreq] at hold
      have hlive : l.cl.live ≠ 0 ∧ l.reqCleanup.cl.live = l.cl.live - 1 := by
        have hrsp : l.reqCleanup.cl.rsp = l.cl.rsp := by simp [Local.reqCleanup, Local.leave]
        rw [Client.live, Client.live, Client.isFinished, Client.isFinished, Client.isFinished,
          Client.isFinished, hreq, hrsp]
        simp [Local.reqCleanup, Local.leave]
      refine ⟨?_, fun _ => reqCleanup_torn⟩
      rw [hlive.2]
      exact reqCleanup_holds hold hin.toAllocated hlive.1
  | noLookup hreq => exact h
  | _ =>
      exact hsame ‹l.cl.req = _› (by simp [Local.SameCnts]) (by simp) (by simp)
        (by simp [ReqPc.server])
        (by simp [ReqPc.own]) (by simp [Client.isFinished])

theorem counted_rspStep {ch : Choice} (hok : l.ownEntry .rsp ch = true) (hfifo : Fifo l.cl)
    (hin : InRange l.cl) (h : Counted l.cl) (hs : RspCase l l') : Counted l'.cl := by
  have hreq := hs.req_eq
  have hfin : l'.cl.isFinished .req = l.cl.isFinished .req := by
    rw [Client.isFinished, Client.isFinished, hreq]
  -- the coroutine goes on in a context that is there
  have hgo (hdead : l.cxtDead = false) {n : Nat}
      (hholds : Holds l'.cl n l.cl.req.server l.cl.req.own) (hlive : l'.cl.live = n) :
      Counted l'.cl := by
    refine ⟨by rwa [hlive, hreq], fun htorn => ?_⟩
    rw [hfin, isFinished_req (live_of_cxtDead hdead)] at htorn
    exact absurd htorn (by simp)
  have hlive {pc : RspPc} (hrsp : l.cl.rsp = pc) (hpos : pc.pos ≠ .finished)
      (hpos' : l'.cl.rsp.pos ≠ .finished) : l'.cl.live = l.cl.live := by
    subst hrsp
    rw [Client.live, Client.live, hfin, isFinished_rsp hpos', isFinished_rsp hpos]
  unfold Local.ownEntry at hok
  dsimp only at hok
  cases hs with
  | stuck f => exact ⟨h.holds.congr rfl rfl, h.torn⟩
  | @io node e p p' l₁ hdead hrsp hio =>
      refine hgo hdead (h.holds.same hio.sameEps.2 ?_ ?_) (hlive hrsp (by simp [RspPc.pos]) ?_)
      · exact congrArg Cxt.pool hio.cxt_eq
      · exact congrArg Cxt.list hio.cxt_eq
      · simp [RspPc.pos]
  | @evict node e ret t hdead hrsp hcnt hstat hfind =>
      have hown : t = e.server := by
        rw [hrsp] at hok
        simpa [hstat, hfind] using hok
      rw [hown] at hfind
      have hs := Nat.ne_of_gt (hin.pool _ (Cxt.mem_of_poolFind hfind)).1
      have hcxt := (l.evicted_frame (l.cl.mem.conns e.server).ep e.server).1
      have hqueued : l.cl.queued =
          e :: ((l.evicted (l.cl.mem.conns e.server).ep e.server).rspPop node e).cl.queued :=
        hfifo.queued_pop hrsp (live_of_cxtDead hdead) (by simp [Local.rspPop, Cxt.poolDel])
      refine hgo hdead ((h.holds.evicted hfind hs).pop hs ?_) (hlive hrsp (by simp [RspPc.pos]) ?_)
      · rw [← hqueued, Client.queued, hcxt]
        rfl
      · simp [Local.rspPop, RspPc.pos]
  | @pop node e ret hdead hrsp hcnt hstat =>
      have hqueued : l.cl.queued = e :: (l.rspPop node e).cl.queued :=
        hfifo.queued_pop hrsp (live_of_cxtDead hdead) (by simp [Local.rspPop])
      have hs := (hin.queued e (by rw [hqueued]; exact List.mem_cons_self)).1.1
      refine hgo hdead (h.holds.pop (Nat.ne_of_gt hs) hqueued) (hlive hrsp (by simp [RspPc.pos]) ?_)
      simp [Local.rspPop, RspPc.pos]
  | exit hdead hrsp =>
      have hold : l.cl.live = l.rspExit.cl.live + 1 := by
        have hfin' : l.rspExit.cl.isFinished .rsp = true := by
          unfold Local.rspExit
          dsimp only
          split <;> simp [Local.leave, Client.isFinished]
        have hopen : l.cl.isFinished .rsp = false := isFinished_rsp (by simp [hrsp, RspPc.pos])
        rw [Client.live, Client.live, hfin, hfin', hopen]
        simp
      let l₀ : Local := { l with cl.cxt.reqWillExit := true }
      let l₁ : Local :=
        let l₀ :=
          if l₀.cl.cxt.reqBlocked then { l₀ with sh.ev := l₀.sh.ev.eventPost l₀.cl.cxt.evReq false }
          else l₀
        { l₀ with sh.ev := l₀.sh.ev.eventFreeId l₀.cl.cxt.evRsp }
      have hsame : l₁.cl.mem = l.cl.mem ∧ l₁.cl.cxt.pool = l.cl.cxt.pool ∧
          l₁.cl.cxt.list = l.cl.cxt.list := by
        simp only [l₁]
        split <;> exact ⟨rfl, rfl, rfl⟩
      have hholds : Holds l₁.cl l.cl.live l.cl.req.server l.cl.req.own :=
        h.holds.same (by rw [Local.SameCnts, hsame.1]; exact ⟨rfl, rfl⟩) hsame.2.1 hsame.2.2
      have hdrop := hholds.decrefClient (by rw [hold]; exact Nat.succ_ne_zero _)
      refine hgo hdead (hdrop.congr rfl rfl) ?_
      rw [hold]
      rfl
  | sleep hdead hrsp hhead =>
      exact hgo hdead (h.holds.same ⟨rfl, rfl⟩ rfl rfl)
        (hlive hrsp (by simp [RspPc.pos]) (by simp [RspPc.pos]))
  | leave hdead hrsp =>
      exact hgo hdead (h.holds.congr rfl rfl)
        (hlive hrsp (by simp [RspPc.pos]) (by simp [RspPc.pos]))
  | serve hdead hrsp hhead hn hcnt hkind =>
      exact hgo hdead (h.holds.congr rfl rfl)
        (hlive hrsp (by simp [RspPc.pos]) (by simp [RspPc.pos]))
  | again hdead hrsp hstat =>
      exact hgo hdead (h.holds.congr rfl rfl)
        (hlive hrsp (by simp [RspPc.pos]) (by simp [RspPc.pos]))

/-- A coroutine that is resumed holds what it held. -/
theorem resume_refs (cl : Client) (side : Side) (ret : Int) :
    (cl.resume side ret).mem = cl.mem ∧ (cl.resume side ret).cxt.pool = cl.cxt.pool ∧
      (cl.resume side ret).cxt.list = cl.cxt.list ∧
      (cl.resume side ret).req.server = cl.req.server ∧ (cl.resume side ret).req.own = cl.req.own ∧
      ∀ side', (cl.resume side ret).isFinished side' = cl.isFinished side' := by
  cases side with
  | req =>
      show (cl.resumeReq ret).mem = cl.mem ∧ (cl.resumeReq ret).cxt.pool = cl.cxt.pool ∧
        (cl.resumeReq ret).cxt.list = cl.cxt.list ∧ (cl.resumeReq ret).req.server = cl.req.server ∧
        (cl.resumeReq ret).req.own = cl.req.own ∧
        ∀ side', (cl.resumeReq ret).isFinished side' = cl.isFinished side'
      unfold Client.resumeReq
      dsimp only
      split
      · rename_i hreq
        refine ⟨rfl, rfl, rfl, by rw [hreq]; rfl, by rw [hreq]; rfl, fun side' => ?_⟩
        cases side' <;> simp [Client.isFinished, hreq]
      · rename_i α k p hreq
        obtain ⟨hserver, hown, -⟩ := ReqPc.io_holds k p (ioResume ret p)
        refine ⟨rfl, rfl, rfl, by rw [hreq]; exact hserver, by rw [hreq]; exact hown,
          fun side' => ?_⟩
        cases side' <;> simp [Client.isFinished, hreq]
      · rename_i hreq
        refine ⟨rfl, rfl, rfl, by rw [hreq]; rfl, by rw [hreq]; rfl, fun side' => ?_⟩
        cases side' <;> simp [Client.isFinished, hreq]
      · rename_i hreq
        refine ⟨rfl, rfl, rfl, by rw [hreq]; rfl, by rw [hreq]; rfl, fun side' => ?_⟩
        cases side' <;> simp [Client.isFinished, hreq]
      · rename_i hreq
        refine ⟨rfl, rfl, rfl, by rw [hreq]; rfl, by rw [hreq]; rfl, fun side' => ?_⟩
        cases side' <;> simp [Client.isFinished, hreq]
      · exact ⟨rfl, rfl, rfl, rfl, rfl, fun side' => by cases side' <;> rfl⟩
  | rsp =>
      show (cl.resumeRsp ret).mem = cl.mem ∧ (cl.resumeRsp ret).cxt.pool = cl.cxt.pool ∧
        (cl.resumeRsp ret).cxt.list = cl.cxt.list ∧ (cl.resumeRsp ret).req.server = cl.req.server ∧
        (cl.resumeRsp ret).req.own = cl.req.own ∧
        ∀ side', (cl.resumeRsp ret).isFinished side' = cl.isFinished side'
      unfold Client.resumeRsp
      dsimp only
      split
      · rename_i hrsp
        refine ⟨rfl, rfl, rfl, rfl, rfl, fun side' => ?_⟩
        cases side' <;> simp [Client.isFinished, hrsp]
      · rename_i hrsp
        refine ⟨rfl, rfl, rfl, rfl, rfl, fun side' => ?_⟩
        cases side' <;> by_cases hret : ret = 0 <;> simp [Client.isFinished, hrsp, hret]
      · rename_i hrsp
        refine ⟨rfl, rfl, rfl, rfl, rfl, fun side' => ?_⟩
        cases side' <;> simp [Client.isFinished, hrsp]
      · exact ⟨rfl, rfl, rfl, rfl, rfl, fun side' => by cases side' <;> rfl⟩

theorem counted_resume (h : Counted cl) (side : Side) (ret : Int) :
    Counted (cl.resume side ret) := by
  obtain ⟨hmem, hpool, hlist, hserver, hown, hfin⟩ := resume_refs cl side ret
  have hqueued : (cl.resume side ret).queued = cl.queued := by
    rw [Client.queued, Client.queued, hlist]
  have hlive : (cl.resume side ret).live = cl.live := by
    rw [Client.live, Client.live, hfin, hfin]
  constructor
  · rw [hserver, hown, hlive]
    constructor
    · rw [hmem]
      exact h.holds.client
    · intro i hi
      rw [hmem, Client.keptConn, hpool, hqueued]
      exact h.holds.conns i hi
    · intro k
      rw [hmem, Client.keptReq, hqueued]
      exact h.holds.reqs k
  · rw [hfin, hpool, hqueued]
    exact h.torn

end

theorem counted_new (sh : Shared) (conn : Conn) (hcnt : conn.cnt = 2) :
    Counted (World.newClient sh conn) := by
  refine ⟨⟨hcnt, fun i hi => ?_, fun k => ?_⟩, fun hfin => absurd hfin (by simp [World.newClient,
    Client.isFinished])⟩
  · rw [Client.keptConn, queued_new]
    show (if i = 0 then conn else { conn with cnt := 0 }).cnt = _
    rw [if_neg hi]
    rfl
  · rw [Client.keptReq, queued_new]
    rfl

theorem counted_connErr {cl : Client} (h : Counted cl) (i : ConnIx) : Counted (cl.connErr i) := by
  have hcnts : (cl.connErr i).mem.cnts = cl.mem.cnts :=
    cl.mem.setConn_cnts_same i (fun k => { k with stat := .closed }) rfl
  refine ⟨⟨?_, fun k hk => ?_, h.holds.reqs⟩, h.torn⟩
  · rw [hcnts]
    exact h.holds.client
  · rw [hcnts]
    exact h.holds.conns k hk

theorem counted_invariant :
    ClientInvariant Local.ownEntry (fun cl => Fifo cl ∧ InRange cl) Counted where
  new := fun sh conn hcnt _ => counted_new sh conn hcnt
  req := fun _ _ _ _ _ hJ h hs => counted_reqStep hJ.1 hJ.2 h hs
  rsp := fun _ _ _ hok _ hJ h hs => counted_rspStep hok hJ.1 hJ.2 h hs
  resume := fun _ side ret _ _ h => counted_resume h side ret
  err := fun _ i _ _ h => counted_connErr h i

theorem World.counted {w : World}
    (h : Run World.step (fun w ch => w.countsOk ch = true) World.init w)
    {c : ClientId} {cl : Client} (hcl : w.clients c = some cl) : Counted cl := by
  refine client_invariant counted_invariant (fun w ch hok => ?_)
    (fun w hr c cl hcl => ⟨fifo hr hcl, inRange hr hcl⟩) h hcl
  rw [countsOk, Bool.and_eq_true] at hok
  exact hok.2

-- ============================================================================
-- Exact counts
-- ============================================================================

/-- The count of every connection and of every request is the number of references to it: of the
    pool, of queued requests, of the locals of the request coroutine, and for the client of the
    coroutines.  What the response coroutine serves has not been freed, and when both coroutines
    have returned everything has. -/
theorem counts_exact {w : World}
    (h : Run World.step (fun w ch => w.countsOk ch = true) World.init w) {c : ClientId}
    {cl : Client}
    (hcl : w.clients c = some cl) :
    (∀ i, cl.mem.cnts i = cl.connRefs i) ∧ (∀ j, cl.mem.reqCnts j = cl.reqRefs j) ∧
      (∀ n e p, cl.rsp = .serve n e p → cl.mem.cnts e.server ≠ 0 ∧ cl.mem.reqCnts e.req ≠ 0) ∧
      (cl.isFinished .req = true → cl.isFinished .rsp = true →
        (∀ i, cl.mem.cnts i = 0) ∧ ∀ j, cl.mem.reqCnts j = 0) := by
  have hcounted := World.counted h hcl
  have hin := World.inRange h hcl
  have hconns (i : ConnIx) : cl.mem.cnts i = cl.connRefs i := by
    rw [Client.connRefs]
    split
    · rename_i hi
      rw [hi]
      exact hcounted.holds.client
    · exact hcounted.holds.conns i ‹_›
  have hreqs (j : ReqIx) : cl.mem.reqCnts j = cl.reqRefs j := hcounted.holds.reqs j
  refine ⟨hconns, hreqs, fun n e p hrsp => ?_, fun hreq hrsp => ?_⟩
  · -- the entry is queued as long as the context is there
    have hout : Outlives w.notify := by
      refine World.outlives (fun w ch hok => ?_) h
      rw [World.countsOk, Bool.and_eq_true] at hok
      exact hok.1
    have hmem : e ∈ cl.queued := (World.fifo h hcl).served_mem hrsp (hout.serving hcl hrsp)
    have hserver : 0 < (cl.queued.map (·.server)).count e.server :=
      List.count_pos_iff.mpr (List.mem_map_of_mem hmem)
    have hreq : 0 < (cl.queued.map (·.req)).count e.req :=
      List.count_pos_iff.mpr (List.mem_map_of_mem hmem)
    rw [hcounted.holds.conns _ (Nat.ne_of_gt (hin.queued e hmem).1.1), hreqs, Client.keptConn,
      Client.reqRefs, Client.keptReq]
    omega
  · obtain ⟨hpool, hqueued⟩ := hcounted.torn hreq
    have hfin : cl.req = .finished := by
      rw [Client.isFinished] at hreq
      split at hreq
      · assumption
      · exact absurd hreq (by simp)
    constructor
    · intro i
      rw [hconns, Client.connRefs, Client.live, hreq, hrsp, Client.keptConn, hpool, hqueued, hfin]
      split <;> rfl
    · intro j
      rw [hreqs, Client.reqRefs, Client.keptReq, hqueued, hfin]
      rfl

/-- The pool and a queued request refer to a server. -/
theorem counts_exact_one : ∃ (w : World) (cl : Client),
    Run World.step (fun w ch => w.countsOk ch = true) World.init w ∧ w.clients 0 = some cl ∧
      w.sh.callCxt = none ∧ cl.mem.cnts 1 = cl.connRefs 1 ∧ cl.connRefs 1 = 2 := by
  have hd : (World.driveInit World.countsOk 300 oneRequest).any (fun w =>
      (w.clients 0).any fun cl => w.sh.callCxt = none && cl.connRefs 1 = 2) = true := by
    decide +kernel
  obtain ⟨w, hw, hp⟩ := exists_run_of_drive hd
  obtain ⟨cl, hcl, hp⟩ := (Option.any_eq_true _ _).mp hp
  rw [Bool.and_eq_true, decide_eq_true_eq, decide_eq_true_eq] at hp
  exact ⟨w, cl, hw, hcl, hp.1, (counts_exact hw hcl).1 1, hp.2⟩

/-- Three requests for one server are queued when it closes the connection.  While the answer to the
    first cannot be written, a fourth request takes the connection out of the pool and makes a new
    one under the same endpoint. -/
def evictedTwice : List Choice :=
  [.epoll [⟨5, false⟩], .accept (.conn 6 ⟨.inet, 1, [127, 0, 0, 1]⟩ true), .accept .stop,
    .sys (.ok (bytesOf
      "GET http://a/ HTTP/1.1\r\n\r\nGET http://a/ HTTP/1.1\r\n\r\nGET http://a/ HTTP/1.1\r\n\r\n")),
    .lookup true, .dnsDone 2, .epoll [⟨4, false⟩], .addrs (some [⟨.inet, [1, 2, 3, 4]⟩]),
    .connect (.connected 7 true), .sys (.ok (bytesOf "GET / HTTP/1.1\r\nHost: a\r\n\r\n")),
    .sys (.ok (bytesOf "GET / HTTP/1.1\r\nHost: a\r\n\r\n")),
    .sys (.ok (bytesOf "GET / HTTP/1.1\r\nHost: a\r\n\r\n")), .sys .again, .sys .again, .sys .again,
    .sys .again, .epoll [⟨7, false⟩], .sys .zero, .sys .again,
    .epoll [⟨6, false⟩], .sys (.ok (bytesOf "GET http://a/ HTTP/1.1\r\n\r\n")),
    .connect (.connected 7 true), .sys (.ok (bytesOf "GET / HTTP/1.1\r\nHost: a\r\n\r\n")),
    .sys .again, .sys (.ok msg502), .sys .err, .sys .again]

/-- The response coroutine takes the new connection out of the pool, and drops the old one twice:
    two requests are queued for it, and its count is 1. -/
theorem counts_off : ∃ (w : World) (cl : Client), w.Reachable ∧ w.clients 0 = some cl ∧
    w.sh.callCxt = none ∧ cl.mem.cnts 1 = 1 ∧ cl.connRefs 1 = 2 := by
  have hd : (World.driveInit (fun _ _ => true) 700 evictedTwice).any (fun w =>
      (w.clients 0).any fun cl => w.sh.callCxt = none && cl.mem.cnts 1 = 1 && cl.connRefs 1 = 2) =
        true := by
    decide +kernel
  obtain ⟨w, hw, hp⟩ := World.reachable_of_drive hd
  obtain ⟨cl, hcl, hp⟩ := (Option.any_eq_true _ _).mp hp
  rw [Bool.and_eq_true, Bool.and_eq_true, decide_eq_true_eq, decide_eq_true_eq,
    decide_eq_true_eq] at hp
  exact ⟨w, cl, hw, hcl, hp.1.1, hp.1.2, hp.2⟩

end HttpProxy
