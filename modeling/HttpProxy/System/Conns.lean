/-
  HttpProxy.System.Conns

  The endpoint and the reference count of each `struct conn`, and the count of
  each `struct net_req`.  Only making a connection changes an endpoint; a count is
  changed by taking and dropping references, and by what allocates the object.
-/

import HttpProxy.System.Cases

namespace HttpProxy

open Lib

namespace Mem

variable (m : Mem)

/-- The endpoint of a connection. -/
def eps (i : ConnIx) : Endpoint := (m.conns i).ep

/-- The count of a connection. -/
def cnts (i : ConnIx) : Nat := (m.conns i).cnt

/-- The count of a request. -/
def reqCnts (j : ReqIx) : Nat := (m.reqs j).cnt

@[simp] theorem setReq_eps (j : ReqIx) (f : Req → Req) :
    (m.setReq j f).nconn = m.nconn ∧ (m.setReq j f).eps = m.eps ∧ (m.setReq j f).cnts = m.cnts :=
  ⟨rfl, rfl, rfl⟩

@[simp] theorem setConn_reqCnts (i : ConnIx) (f : Conn → Conn) :
    (m.setConn i f).nconn = m.nconn ∧ (m.setConn i f).reqCnts = m.reqCnts := ⟨rfl, rfl⟩

theorem setConn_eps (i : ConnIx) (f : Conn → Conn) (hf : (f (m.conns i)).ep = (m.conns i).ep) :
    (m.setConn i f).eps = m.eps := by
  funext k
  by_cases hk : k = i
  · subst hk
    simp [eps, setConn, hf]
  · simp [eps, setConn, Function.update_of_ne hk]

theorem setConn_cnts (i : ConnIx) (f : Conn → Conn) :
    (m.setConn i f).cnts = Function.update m.cnts i (f (m.conns i)).cnt := by
  funext k
  by_cases hk : k = i
  · subst hk
    simp [cnts, setConn]
  · simp [cnts, setConn, Function.update_of_ne hk]

theorem setReq_reqCnts (j : ReqIx) (f : Req → Req) :
    (m.setReq j f).reqCnts = Function.update m.reqCnts j (f (m.reqs j)).cnt := by
  funext k
  by_cases hk : k = j
  · subst hk
    simp [reqCnts, setReq]
  · simp [reqCnts, setReq, Function.update_of_ne hk]

/-- Overwriting a connection keeps the counts when it keeps that one. -/
theorem setConn_cnts_same (i : ConnIx) (f : Conn → Conn)
    (hf : (f (m.conns i)).cnt = (m.conns i).cnt) : (m.setConn i f).cnts = m.cnts := by
  rw [setConn_cnts, hf]
  exact Function.update_eq_self i m.cnts

end Mem

namespace Local

/-- The connections of `l'` are those of `l`, with their endpoints. -/
abbrev SameEps (l l' : Local) : Prop :=
  l'.cl.mem.nconn = l.cl.mem.nconn ∧ l'.cl.mem.eps = l.cl.mem.eps

/-- The counts of `l'` are those of `l`. -/
abbrev SameCnts (l l' : Local) : Prop :=
  l'.cl.mem.cnts = l.cl.mem.cnts ∧ l'.cl.mem.reqCnts = l.cl.mem.reqCnts

variable (l : Local) (i : ConnIx) (j : ReqIx)

-- ============================================================================
-- Endpoints
-- ============================================================================

@[simp] theorem raise_eps (f : Fault) : SameEps l (l.raise f) := ⟨rfl, rfl⟩

@[simp] theorem connDel_eps : SameEps l (l.connDel i) := ⟨rfl, rfl⟩

@[simp] theorem closeFd_eps : SameEps l (l.closeFd i) := ⟨rfl, rfl⟩

@[simp] theorem connClose_eps : SameEps l (l.connClose i) := by
  unfold connClose
  split
  · exact ⟨rfl, rfl⟩
  · exact ⟨rfl, Mem.setConn_eps _ i (fun k => { k with stat := .closed, shut := true }) rfl⟩

@[simp] theorem connDone_eps : SameEps l (l.connDone i) := by
  unfold connDone
  split <;> simp [SameEps]

@[simp] theorem increfConn_eps : SameEps l (l.increfConn i) := by
  unfold increfConn
  split
  · exact ⟨rfl, rfl⟩
  · exact ⟨rfl, Mem.setConn_eps _ i (fun k => { k with cnt := k.cnt + 1 }) rfl⟩

@[simp] theorem decrefConnNull_eps : SameEps l (l.decrefConnNull i) := by
  unfold decrefConnNull
  split
  · exact ⟨rfl, rfl⟩
  · exact ⟨rfl, Mem.setConn_eps _ i (fun k => { k with cnt := k.cnt - 1 }) rfl⟩

@[simp] theorem decrefConn_eps : SameEps l (l.decrefConn i) := by
  unfold decrefConn
  dsimp only
  split <;> simp [SameEps]

@[simp] theorem increfReq_eps : SameEps l (l.increfReq j) := by
  unfold increfReq
  split <;> exact ⟨rfl, rfl⟩

@[simp] theorem decrefReq_eps : SameEps l (l.decrefReq j) := by
  unfold decrefReq
  split <;> exact ⟨rfl, rfl⟩

@[simp] theorem connInit_eps : SameEps l (l.connInit i) :=
  ⟨rfl, Mem.setConn_eps _ i (fun k => { k with stat := .free, io := ioBufInit }) rfl⟩

@[simp] theorem begun_eps (data : NetData) (kind : HandlerKind) : SameEps l (l.begun data kind) :=
  ⟨rfl, rfl⟩

@[simp] theorem withHost_eps : SameEps l (l.withHost j) := ⟨rfl, rfl⟩

@[simp] theorem reqFailed_eps (server : Option ConnIx) : SameEps l (l.reqFailed j server) := by
  cases server <;> simp [SameEps, reqFailed]

@[simp] theorem pooled_eps : SameEps l (l.pooled i) := by
  unfold pooled
  dsimp only
  split <;> simp [SameEps]

@[simp] theorem evicted_eps (ep : Endpoint) (s : ConnIx) : SameEps l (l.evicted ep s) := by
  simp [SameEps, evicted]

@[simp] theorem dropPool_eps (ts : List (Endpoint × ConnIx)) : SameEps l (l.dropPool ts) := by
  induction ts generalizing l with
  | nil => exact ⟨rfl, rfl⟩
  | cons t ts ih => simp [SameEps, dropPool, ih]

@[simp] theorem dropList_eps (es : List (Nat × Entry)) : SameEps l (l.dropList es) := by
  induction es generalizing l with
  | nil => exact ⟨rfl, rfl⟩
  | cons e es ih => simp [SameEps, dropList, ih]

@[simp] theorem appendEntry_eps (s : ConnIx) : SameEps l (l.appendEntry j s) := by
  simp [SameEps]

-- ============================================================================
-- Counts
-- ============================================================================

@[simp] theorem raise_cnts (f : Fault) : SameCnts l (l.raise f) := ⟨rfl, rfl⟩

@[simp] theorem connDel_cnts : SameCnts l (l.connDel i) := ⟨rfl, rfl⟩

@[simp] theorem closeFd_cnts : SameCnts l (l.closeFd i) := ⟨rfl, rfl⟩

@[simp] theorem connClose_cnts : SameCnts l (l.connClose i) := by
  unfold connClose
  split
  · exact ⟨rfl, rfl⟩
  · exact ⟨Mem.setConn_cnts_same _ i (fun k => { k with stat := .closed, shut := true }) rfl, rfl⟩

@[simp] theorem connDone_cnts : SameCnts l (l.connDone i) := by
  unfold connDone
  split <;> simp [SameCnts]

@[simp] theorem connInit_cnts : SameCnts l (l.connInit i) :=
  ⟨Mem.setConn_cnts_same _ i (fun k => { k with stat := .free, io := ioBufInit }) rfl, rfl⟩

/-- A reference is taken. -/
theorem increfConn_cnt (h : l.cl.mem.cnts i ≠ 0) (k : ConnIx) :
    (l.increfConn i).cl.mem.cnts k = l.cl.mem.cnts k + (if k = i then 1 else 0) := by
  have hcnt : (l.cl.mem.conns i).cnt ≠ 0 := h
  rw [increfConn, if_neg hcnt]
  dsimp only
  rw [Mem.setConn_cnts]
  by_cases hk : k = i
  · subst hk
    simp [Mem.cnts]
  · simp [hk]

@[simp] theorem increfConn_reqCnts : (l.increfConn i).cl.mem.reqCnts = l.cl.mem.reqCnts := by
  unfold increfConn
  split <;> rfl

theorem decrefConnNull_cnt (h : l.cl.mem.cnts i ≠ 0) (k : ConnIx) :
    (l.decrefConnNull i).cl.mem.cnts k + (if k = i then 1 else 0) = l.cl.mem.cnts k := by
  have hcnt : (l.cl.mem.conns i).cnt ≠ 0 := h
  rw [decrefConnNull, if_neg hcnt]
  dsimp only
  rw [Mem.setConn_cnts]
  by_cases hk : k = i
  · subst hk
    simp only [Function.update_self, Mem.cnts, if_true]
    omega
  · simp [hk]

@[simp] theorem decrefConnNull_reqCnts :
    (l.decrefConnNull i).cl.mem.reqCnts = l.cl.mem.reqCnts := by
  unfold decrefConnNull
  split <;> rfl

/-- A reference is dropped. -/
theorem decrefConn_cnt (h : l.cl.mem.cnts i ≠ 0) (k : ConnIx) :
    (l.decrefConn i).cl.mem.cnts k + (if k = i then 1 else 0) = l.cl.mem.cnts k := by
  rw [← l.decrefConnNull_cnt i h k, decrefConn]
  split
  · rw [((l.decrefConnNull i).connDone_cnts i).1]
  · rfl

@[simp] theorem decrefConn_reqCnts : (l.decrefConn i).cl.mem.reqCnts = l.cl.mem.reqCnts := by
  rw [decrefConn]
  split
  · rw [((l.decrefConnNull i).connDone_cnts i).2, decrefConnNull_reqCnts]
  · exact l.decrefConnNull_reqCnts i

theorem increfReq_cnt (h : l.cl.mem.reqCnts j ≠ 0) (k : ReqIx) :
    (l.increfReq j).cl.mem.reqCnts k = l.cl.mem.reqCnts k + (if k = j then 1 else 0) := by
  have hcnt : (l.cl.mem.reqs j).cnt ≠ 0 := h
  rw [increfReq, if_neg hcnt]
  dsimp only
  rw [Mem.setReq_reqCnts]
  by_cases hk : k = j
  · subst hk
    simp [Mem.reqCnts]
  · simp [hk]

@[simp] theorem increfReq_cnts : (l.increfReq j).cl.mem.cnts = l.cl.mem.cnts := by
  unfold increfReq
  split <;> rfl

theorem decrefReq_cnt (h : l.cl.mem.reqCnts j ≠ 0) (k : ReqIx) :
    (l.decrefReq j).cl.mem.reqCnts k + (if k = j then 1 else 0) = l.cl.mem.reqCnts k := by
  have hcnt : (l.cl.mem.reqs j).cnt ≠ 0 := h
  rw [decrefReq, if_neg hcnt]
  dsimp only
  rw [Mem.setReq_reqCnts]
  by_cases hk : k = j
  · subst hk
    simp only [Function.update_self, Mem.reqCnts, if_true]
    omega
  · simp [hk]

@[simp] theorem decrefReq_cnts : (l.decrefReq j).cl.mem.cnts = l.cl.mem.cnts := by
  unfold decrefReq
  split <;> rfl

@[simp] theorem withHost_cnts : SameCnts l (l.withHost j) := by
  refine ⟨rfl, ?_⟩
  unfold withHost
  dsimp only
  rw [Mem.setReq_reqCnts]
  exact Function.update_eq_self j l.cl.mem.reqCnts

/-- A new connection has one reference. -/
theorem newConn_cnt (fd : Fd) (ep : Endpoint) (ok : Bool) (k : ConnIx) :
    (l.newConn fd ep ok).cl.mem.cnts k = if k = l.cl.mem.nconn then 1 else l.cl.mem.cnts k := by
  by_cases hk : k = l.cl.mem.nconn
  · subst hk
    simp [newConn, Mem.cnts]
  · simp [newConn, Mem.cnts, hk]

/-- A new request has one reference. -/
theorem begun_cnt (data : NetData) (kind : HandlerKind) (k : ReqIx) :
    (l.begun data kind).cl.mem.reqCnts k =
      if k = l.cl.mem.nreq then 1 else l.cl.mem.reqCnts k := by
  by_cases hk : k = l.cl.mem.nreq
  · subst hk
    simp [begun, newReq, Mem.reqCnts]
  · simp [begun, newReq, Mem.reqCnts, hk]

end Local

/-- An operation changes no endpoint. -/
theorem IoCase.sameEps {l l' : Local} {side : Side} {srv : ConnIx} {α : Type} {p p' : Io α}
    (h : IoCase l side srv p l' p') : l.SameEps l' ∧ l.SameCnts l' := by
  cases h with
  | unroll body s k => exact ⟨⟨rfl, rfl⟩, rfl, rfl⟩
  | stuck o k f => exact ⟨⟨rfl, rfl⟩, rfl, rfl⟩
  | yield r d k hfreed =>
      cases side <;> exact ⟨⟨rfl, rfl⟩, rfl, rfl⟩
  | act hfreed hact =>
      cases hact with
      | sys r q res hok => cases q <;> cases res <;> exact ⟨⟨rfl, rfl⟩, rfl, rfl⟩
      | setBuf r b =>
          exact ⟨⟨rfl, Mem.setConn_eps _ _ (fun c => { c with io := b }) rfl⟩,
            Mem.setConn_cnts_same _ _ (fun c => { c with io := b }) rfl, rfl⟩
      | close r => exact ⟨l.connClose_eps _, l.connClose_cnts _⟩
      | _ => exact ⟨⟨rfl, rfl⟩, rfl, rfl⟩

end HttpProxy
