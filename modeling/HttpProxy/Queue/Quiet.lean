/-
  HttpProxy.Queue.Quiet

  A step of the request coroutine is one of the I/O call it is in, or `Quiet`: the
  client receives nothing, its buffer and the heads of its requests stay, and the
  coroutine begins no I/O call but those of `Begins` (`ReqCase.io_or_quiet`).
-/

import HttpProxy.Queue.Range

namespace HttpProxy

open Lib

-- ============================================================================
-- The buffer of the client
-- ============================================================================

/-- The read buffer and the counters of the accepted connection. -/
def Mem.clientIo (m : Mem) : IoBuf := (m.conns 0).io

theorem Mem.setConn_clientIo (m : Mem) (i : ConnIx) (f : Conn → Conn)
    (hf : (f (m.conns i)).io = (m.conns i).io) : (m.setConn i f).clientIo = m.clientIo := by
  by_cases hi : 0 = i
  · subst hi
    simp [clientIo, setConn, hf]
  · simp [clientIo, setConn, Function.update_of_ne hi]

theorem Mem.setConn_clientIo_of_ne (m : Mem) {i : ConnIx} (hi : i ≠ 0) (f : Conn → Conn) :
    (m.setConn i f).clientIo = m.clientIo := by
  simp [clientIo, setConn, Function.update_of_ne hi.symm]

namespace Local

/-- The buffer of the client is that of `l`. -/
abbrev SameIo (l l' : Local) : Prop := l'.cl.mem.clientIo = l.cl.mem.clientIo

variable (l : Local) (i : ConnIx) (j : ReqIx)

@[simp] theorem raise_io (f : Fault) : SameIo l (l.raise f) := rfl

@[simp] theorem connDel_io : SameIo l (l.connDel i) := rfl

@[simp] theorem closeFd_io : SameIo l (l.closeFd i) := rfl

@[simp] theorem connClose_io : SameIo l (l.connClose i) := by
  unfold connClose
  split
  · rfl
  · exact Mem.setConn_clientIo _ i (fun k => { k with stat := .closed, shut := true }) rfl

@[simp] theorem connDone_io : SameIo l (l.connDone i) := by
  unfold connDone
  split <;> simp [SameIo]

@[simp] theorem increfConn_io : SameIo l (l.increfConn i) := by
  unfold increfConn
  split
  · rfl
  · exact Mem.setConn_clientIo _ i (fun k => { k with cnt := k.cnt + 1 }) rfl

@[simp] theorem decrefConnNull_io : SameIo l (l.decrefConnNull i) := by
  unfold decrefConnNull
  split
  · rfl
  · exact Mem.setConn_clientIo _ i (fun k => { k with cnt := k.cnt - 1 }) rfl

@[simp] theorem decrefConn_io : SameIo l (l.decrefConn i) := by
  unfold decrefConn
  dsimp only
  split <;> simp [SameIo]

@[simp] theorem increfReq_io : SameIo l (l.increfReq j) := by
  unfold increfReq
  split <;> rfl

@[simp] theorem decrefReq_io : SameIo l (l.decrefReq j) := by
  unfold decrefReq
  split <;> rfl

@[simp] theorem begun_io (data : NetData) (kind : HandlerKind) : SameIo l (l.begun data kind) := rfl

@[simp] theorem withHost_io : SameIo l (l.withHost j) := rfl

@[simp] theorem reqFailed_io (server : Option ConnIx) : SameIo l (l.reqFailed j server) := by
  cases server <;> simp [SameIo, reqFailed]

@[simp] theorem evicted_io (ep : Endpoint) (s : ConnIx) : SameIo l (l.evicted ep s) := by
  simp [SameIo, evicted]

@[simp] theorem dropPool_io (ts : List (Endpoint × ConnIx)) : SameIo l (l.dropPool ts) := by
  induction ts generalizing l with
  | nil => rfl
  | cons t ts ih => simp [SameIo, dropPool, ih]

@[simp] theorem dropList_io (es : List (Nat × Entry)) : SameIo l (l.dropList es) := by
  induction es generalizing l with
  | nil => rfl
  | cons e es ih => simp [SameIo, dropList, ih]

@[simp] theorem appendEntry_io (s : ConnIx) : SameIo l (l.appendEntry j s) := by
  simp [SameIo]

/-- The waits of `l'` are those of `l`. -/
abbrev SameWaits (l l' : Local) : Prop :=
  l'.cl.reqWait = l.cl.reqWait ∧ l'.cl.rspWait = l.cl.rspWait

@[simp] theorem appendEntry_wait (s : ConnIx) : SameWaits l (l.appendEntry j s) := by
  simp [SameWaits, appendEntry]

@[simp] theorem reqFailed_wait (server : Option ConnIx) : SameWaits l (l.reqFailed j server) := by
  cases server <;> simp [SameWaits, reqFailed]

@[simp] theorem dnsResolved_wait (eid : EventId) (res : Option (List AddrInfo)) :
    SameWaits l (l.dnsResolved j eid res) := by
  cases res <;> exact ⟨rfl, rfl⟩

@[simp] theorem pooled_wait : SameWaits l (l.pooled i) := by
  unfold pooled
  dsimp only
  split <;> simp [SameWaits]

@[simp] theorem evicted_wait (ep : Endpoint) (s : ConnIx) : SameWaits l (l.evicted ep s) := by
  simp [SameWaits, evicted]

@[simp] theorem park_req_wait (x : Wait) : (l.park .req x).cl.rspWait = l.cl.rspWait := by
  cases x <;> rfl

@[simp] theorem dnsResolved_io (eid : EventId) (res : Option (List AddrInfo)) :
    SameIo l (l.dnsResolved j eid res) := by
  simp [SameIo]

/-- Connections that are made are not the client's. -/
theorem pooled_io (hi : i ≠ 0) : SameIo l (l.pooled i) := by
  have hinit : SameIo l (l.connInit i) :=
    Mem.setConn_clientIo_of_ne _ hi fun k => { k with stat := .free, io := ioBufInit }
  unfold pooled
  dsimp only
  split
  · exact (decrefConn_io _ i).trans hinit
  · exact hinit

theorem newConn_io (hpos : 0 < l.cl.mem.nconn) (fd : Fd) (ep : Endpoint) (ok : Bool) :
    SameIo l (l.newConn fd ep ok) := by
  have hne : 0 ≠ l.cl.mem.nconn := Nat.ne_of_lt hpos
  simp [SameIo, newConn, Mem.clientIo, Function.update_of_ne hne]

end Local

-- ============================================================================
-- Quiet steps
-- ============================================================================

/-- The I/O calls of the request coroutine, with their programs. -/
inductive Begins : {α : Type} → ReqK α → Io α → Prop where
  | fetch (heap : Nat → Bytes) : Begins .fetch (netFetchHttp .client (netDataInit heap))
  | badRequest (req : Option ReqIx) : Begins (.badRequest req) (netBadRequest .client)
  | badGateway (j : ReqIx) (server : Option ConnIx) :
      Begins (.badGateway j server) (netBadGateway .client)
  | forward (j : ReqIx) (s : ConnIx) (head : Bytes) :
      Begins (.forward j s head) (connWrite .server head)
  | body (j : ReqIx) (s : ConnIx) (data : NetData) :
      Begins (.body j s) (netTransferBody .server .client data)
  | ok200 (j : ReqIx) (s : ConnIx) :
      Begins (.ok200 j s) (do Io.mark .ok200; connWrite .client msg200)
  | tunnel (j : ReqIx) (s : ConnIx) : Begins (.tunnel j s) (netTunnel .server .client)

/-- What a step of the request coroutine outside an I/O call leaves alone. -/
structure Quiet (l l' : Local) : Prop where
  out : l'.cl.hist.out = l.cl.hist.out
  call : l'.cl.hist.call = l.cl.hist.call
  io : l.SameIo l'
  heads : ∀ j < l.cl.mem.nreq, l'.cl.mem.head j = l.cl.mem.head j
  rspWait : l'.cl.rspWait = l.cl.rspWait
  begins : ∀ (α : Type) (k : ReqK α) (p : Io α), l'.cl.req = .io k p →
    Begins k p ∧ l'.cl.reqWait = l.cl.reqWait

section

variable {l l' : Local}

/-- A step to a state that is not an I/O call. -/
theorem Quiet.leaves (hhist : l'.cl.hist.out = l.cl.hist.out ∧ l'.cl.hist.call = l.cl.hist.call)
    (hio : l.SameIo l') (hheads : l'.cl.mem.head = l.cl.mem.head)
    (hwait : l'.cl.rspWait = l.cl.rspWait) (hreq : ∀ (α : Type) (k : ReqK α) (p : Io α),
      l'.cl.req ≠ .io k p) : Quiet l l' :=
  ⟨hhist.1, hhist.2, hio, fun j _ => congrFun hheads j, hwait, fun α k p h => absurd h (hreq α k p)⟩

/-- A step that begins an I/O call. -/
theorem Quiet.calls {α : Type} {k : ReqK α} {p : Io α}
    (hhist : l'.cl.hist.out = l.cl.hist.out ∧ l'.cl.hist.call = l.cl.hist.call)
    (hio : l.SameIo l') (hheads : ∀ j < l.cl.mem.nreq, l'.cl.mem.head j = l.cl.mem.head j)
    (hwait : l'.cl.reqWait = l.cl.reqWait ∧ l'.cl.rspWait = l.cl.rspWait)
    (hreq : l'.cl.req = .io k p)
    (hbegins : Begins k p) : Quiet l l' := by
  refine ⟨hhist.1, hhist.2, hio, hheads, hwait.2, fun α' k' p' h => ?_⟩
  cases hreq.symm.trans h
  exact ⟨hbegins, hwait.1⟩

/-- A server is found in a state that differs from `l` in counts. -/
theorem Quiet.got {l₀ : Local}
    (hhist : l₀.cl.hist.out = l.cl.hist.out ∧ l₀.cl.hist.call = l.cl.hist.call)
    (hio : l.SameIo l₀) (hheads : l₀.cl.mem.head = l.cl.mem.head)
    (hwait : l₀.cl.reqWait = l.cl.reqWait ∧ l₀.cl.rspWait = l.cl.rspWait) (j : ReqIx) (s : ConnIx) :
    Quiet l (l₀.gotServer j s) := by
  have hgot := l₀.gotServer_cases j s
  generalize l₀.gotServer j s = l₁ at hgot ⊢
  cases hgot with
  | http hkind =>
      refine .calls ?_ ?_ (fun j' _ => ?_) ?_ rfl (.forward _ _ _)
      · simpa using hhist
      · simpa [Local.SameIo] using hio
      · simp [hheads]
      · exact hwait
  | connect hkind =>
      refine .calls ?_ ?_ (fun j' _ => ?_) ?_ rfl (.ok200 _ _)
      · simpa using hhist
      · simpa [Local.SameIo] using hio
      · simp [hheads]
      · simp [hwait]

theorem ReqCase.io_or_quiet (hin : InRange l.cl) (h : ReqCase l l') :
    (∃ (α : Type) (k : ReqK α) (p p' : Io α) (l₁ : Local), l.cl.req = .io k p ∧
      IoCase l .req k.srv p l₁ p' ∧ l' = l₁.setReqPc (.io k p')) ∨ Quiet l l' := by
  cases h with
  | io hreq hio => exact .inl ⟨_, _, _, _, _, hreq, hio, rfl⟩
  | fetch hreq => exact .inr (.calls ⟨rfl, rfl⟩ rfl (fun _ _ => rfl) ⟨rfl, rfl⟩ rfl (.fetch _))
  | unknown hreq =>
      exact .inr (.calls ⟨rfl, rfl⟩ rfl (fun _ _ => rfl) ⟨rfl, rfl⟩ rfl (.badRequest _))
  | refused hreq =>
      exact .inr
        (.calls (by simp) rfl (fun j hj => l.begun_head _ _ hj) ⟨rfl, rfl⟩ rfl (.badRequest _))
  | dispatch hreq hkind hparse =>
      refine .inr ⟨by simp, by simp, rfl, fun j hj => l.begun_head _ _ hj, rfl, ?_⟩
      exact fun α k p h => absurd h (by simp)
  | bodyFailed hreq hret =>
      exact .inr (.calls ⟨rfl, rfl⟩ rfl (fun _ _ => rfl) ⟨rfl, rfl⟩ rfl (.badGateway _ _))
  | okFailed hreq hret =>
      exact .inr (.calls ⟨rfl, rfl⟩ rfl (fun _ _ => rfl) ⟨rfl, rfl⟩ rfl (.badGateway _ _))
  | okDone hreq => exact .inr (.calls ⟨rfl, rfl⟩ rfl (fun _ _ => rfl) ⟨rfl, rfl⟩ rfl (.tunnel _ _))
  | forwarded hreq =>
      exact .inr (.calls (by simp) (by simp [Local.SameIo]) (by simp) (by simp) rfl (.body _ _ _))
  | noLookup hreq =>
      exact .inr (.leaves ⟨rfl, rfl⟩ rfl rfl rfl (by simp [hreq]))
  | noAddr hreq =>
      exact .inr (.calls ⟨rfl, rfl⟩ rfl (fun _ _ => rfl) ⟨rfl, rfl⟩ rfl (.badGateway _ _))
  | reuse hreq hfind hstat =>
      exact .inr (.got (by simp) (by simp [Local.SameIo]) (by simp) (by simp) _ _)
  | newConn hreq hfd =>
      have hpos := hin.client
      rw [Local.gotNewConn_eq]
      refine .inr (.got (by simp) ?_ (by simp) ?_ _ _)
      · rw [Local.SameIo, Local.increfConn_io, Local.pooled_io _ _ (Nat.ne_of_gt hpos),
          Local.newConn_io _ hpos]
      · simp
  | @connected j i rps ret hreq hret =>
      have hpos := (hin.server i (by rw [hreq]; rfl)).1
      rw [Local.gotNewConn_eq]
      refine .inr (.got (by simp) ?_ (by simp) (by simp) _ _)
      rw [Local.SameIo, Local.increfConn_io, Local.pooled_io _ _ (Nat.ne_of_gt hpos)]
  | @connecting j ep rps fd hreq hfd =>
      refine .inr (.leaves (by simp) ?_ (by simp) (by simp) (by simp))
      exact l.newConn_io hin.client fd ep true
  | cleanup hreq =>
      refine .inr (.leaves ?_ ?_ ?_ ?_ ?_) <;> simp [Local.SameIo, Local.reqCleanup, Local.leave]
  | done hreq =>
      unfold Local.reqDone
      dsimp only
      split
      · exact .inr (.leaves ⟨rfl, rfl⟩ rfl rfl rfl (by simp))
      · exact .inr (.leaves ⟨rfl, rfl⟩ rfl rfl rfl (by simp [Local.setReqBlocked]))
  | @resolved j eid res hreq =>
      obtain ⟨rps, hreq'⟩ := (l.dnsResolved_frame j eid res).2.2
      exact .inr (.leaves (by simp) (by simp [Local.SameIo]) (by simp) (by simp) (by simp [hreq']))
  | _ => exact .inr (.leaves (by simp) (by simp [Local.SameIo]) (by simp) (by simp) (by simp))

end

end HttpProxy
