/-
  HttpProxy.System.Heads

  The heads of a client's requests: the kind of handler and the buffer of each
  `struct net_req`.  A head is written once, when the request is allocated; taking
  and dropping references and everything done to connections leave all heads as
  they are (`SameHeads`), and so does adding a Host field.
-/

import HttpProxy.System.Frame

namespace HttpProxy

open Lib

/-- The handlers and the buffer of a request. -/
def Mem.head (m : Mem) (j : ReqIx) : HandlerKind × Strbuf :=
  ((m.reqs j).kind, (m.reqs j).req.data.buf)

@[simp] theorem Mem.setConn_head (m : Mem) (i : ConnIx) (f : Conn → Conn) :
    (m.setConn i f).head = m.head := rfl

@[simp] theorem Mem.setConn_nreq (m : Mem) (i : ConnIx) (f : Conn → Conn) :
    (m.setConn i f).nreq = m.nreq := rfl

/-- Overwriting a request keeps the heads when it keeps that one. -/
theorem Mem.setReq_head (m : Mem) (j : ReqIx) (f : Req → Req)
    (hkind : (f (m.reqs j)).kind = (m.reqs j).kind)
    (hbuf : (f (m.reqs j)).req.data.buf = (m.reqs j).req.data.buf) :
    (m.setReq j f).head = m.head := by
  funext k
  by_cases hk : k = j
  · subst hk
    simp [Mem.head, Mem.setReq, hkind, hbuf]
  · simp [Mem.head, Mem.setReq, Function.update_of_ne hk]

namespace Local

/-- The requests of `l'` have the heads they have in `l`. -/
abbrev SameHeads (l l' : Local) : Prop :=
  l'.cl.mem.nreq = l.cl.mem.nreq ∧ l'.cl.mem.head = l.cl.mem.head

variable (l : Local) (i : ConnIx) (j : ReqIx)

@[simp] theorem raise_heads (f : Fault) : SameHeads l (l.raise f) := ⟨rfl, rfl⟩

@[simp] theorem connDel_heads : SameHeads l (l.connDel i) := ⟨rfl, rfl⟩

@[simp] theorem closeFd_heads : SameHeads l (l.closeFd i) := ⟨rfl, rfl⟩

@[simp] theorem connClose_heads : SameHeads l (l.connClose i) := by
  unfold connClose
  split <;> exact ⟨rfl, rfl⟩

@[simp] theorem connDone_heads : SameHeads l (l.connDone i) := by
  unfold connDone
  split <;> simp [SameHeads]

@[simp] theorem increfConn_heads : SameHeads l (l.increfConn i) := by
  unfold increfConn
  split <;> exact ⟨rfl, rfl⟩

@[simp] theorem decrefConnNull_heads : SameHeads l (l.decrefConnNull i) := by
  unfold decrefConnNull
  split <;> exact ⟨rfl, rfl⟩

@[simp] theorem decrefConn_heads : SameHeads l (l.decrefConn i) := by
  unfold decrefConn
  dsimp only
  split <;> simp [SameHeads]

@[simp] theorem increfReq_heads : SameHeads l (l.increfReq j) := by
  unfold increfReq
  split
  · exact ⟨rfl, rfl⟩
  · exact ⟨rfl, l.cl.mem.setReq_head j (fun r => { r with cnt := r.cnt + 1 }) rfl rfl⟩

@[simp] theorem decrefReq_heads : SameHeads l (l.decrefReq j) := by
  unfold decrefReq
  split
  · exact ⟨rfl, rfl⟩
  · exact ⟨rfl, l.cl.mem.setReq_head j (fun r => { r with cnt := r.cnt - 1 }) rfl rfl⟩

@[simp] theorem connInit_heads : SameHeads l (l.connInit i) := ⟨rfl, rfl⟩

@[simp] theorem newConn_heads (fd : Fd) (ep : Endpoint) (ok : Bool) :
    SameHeads l (l.newConn fd ep ok) := ⟨rfl, rfl⟩

@[simp] theorem park_heads (side : Side) (x : Wait) : SameHeads l (l.park side x) := by
  cases side <;> cases x <;> exact ⟨rfl, rfl⟩

@[simp] theorem dropPool_heads (ts : List (Endpoint × ConnIx)) : SameHeads l (l.dropPool ts) := by
  induction ts generalizing l with
  | nil => exact ⟨rfl, rfl⟩
  | cons t ts ih => simp [SameHeads, dropPool, ih]

@[simp] theorem dropList_heads (es : List (Nat × Entry)) : SameHeads l (l.dropList es) := by
  induction es generalizing l with
  | nil => exact ⟨rfl, rfl⟩
  | cons e es ih => simp [SameHeads, dropList, ih]

/-- A new request leaves the others as they are. -/
theorem newReq_head (req : NetReq) (kind : HandlerKind) {k : ReqIx} (hk : k < l.cl.mem.nreq) :
    (l.newReq req kind).cl.mem.head k = l.cl.mem.head k := by
  have hne : k ≠ l.cl.mem.nreq := Nat.ne_of_lt hk
  simp [newReq, Mem.head, Function.update_of_ne hne]

theorem newReq_new (req : NetReq) (kind : HandlerKind) :
    (l.newReq req kind).cl.mem.head l.cl.mem.nreq = (kind, req.data.buf) := by
  simp [newReq, Mem.head]

end Local

end HttpProxy
