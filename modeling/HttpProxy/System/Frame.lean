/-
  HttpProxy.System.Frame

  What the operations leave alone.  Taking and dropping references, closing and
  deregistering change the heap objects, the descriptors and the fault, and
  nothing else (`Frame`); setting a program counter changes nothing but that.
  All of it is tagged `simp`, so that later modules read a field of a step's
  result without unfolding the operations the step is made of.
-/

import HttpProxy.System.Step

namespace HttpProxy

namespace Events

variable (ev : Events) (eid : EventId) (d : Bool) (x : Co)

/-- An event goes to the end of the queue. -/
@[simp] theorem eventPost_fields : (ev.eventPost eid d).queue = ev.queue ++ [(eid, d)] ∧
    (ev.eventPost eid d).handlers = ev.handlers ∧ (ev.eventPost eid d).idMax = ev.idMax :=
  ⟨rfl, rfl, rfl⟩

/-- A handler replaces the one its id had. -/
@[simp] theorem eventSetHandler_fields : (ev.eventSetHandler eid x).queue = ev.queue ∧
    (ev.eventSetHandler eid x).handlers = Function.update ev.handlers eid (some x) ∧
    (ev.eventSetHandler eid x).idMax = ev.idMax :=
  ⟨rfl, rfl, rfl⟩

/-- The handler of an id is forgotten; events that are queued for it stay. -/
@[simp] theorem eventFreeId_fields : (ev.eventFreeId eid).queue = ev.queue ∧
    (ev.eventFreeId eid).handlers = Function.update ev.handlers eid none ∧
    (ev.eventFreeId eid).idMax = ev.idMax :=
  ⟨rfl, rfl, rfl⟩

/-- Handing out an id only moves the counter on. -/
@[simp] theorem eventGetId_fields : ev.eventGetId.queue = ev.queue ∧
    ev.eventGetId.handlers = ev.handlers ∧ ev.eventGetId.idMax = ev.idMax + 1 :=
  ⟨rfl, rfl, rfl⟩

end Events

namespace Local

/-- `l'` differs from `l` in heap objects, descriptors and the fault only. -/
abbrev Frame (l l' : Local) : Prop :=
  l'.c = l.c ∧ l'.cl.cxt = l.cl.cxt ∧ l'.cl.req = l.cl.req ∧ l'.cl.reqWait = l.cl.reqWait ∧
    l'.cl.rsp = l.cl.rsp ∧ l'.cl.rspWait = l.cl.rspWait ∧ l'.cl.hist = l.cl.hist ∧
    l'.sh.mainStat = l.sh.mainStat ∧ l'.sh.main = l.sh.main ∧ l'.sh.callCxt = l.sh.callCxt ∧
    l'.sh.ev = l.sh.ev ∧ l'.sh.dns = l.sh.dns

variable (l : Local) (i : ConnIx) (j : ReqIx)

@[simp] theorem raise_frame (f : Fault) : Frame l (l.raise f) := by
  simp [Frame, raise, Shared.raise]

@[simp] theorem connDel_frame : Frame l (l.connDel i) := by
  simp [Frame, connDel]

@[simp] theorem closeFd_frame : Frame l (l.closeFd i) := by
  simp [Frame, closeFd]

/-- Closing works on the connection and its descriptor. -/
@[simp] theorem connClose_frame : Frame l (l.connClose i) := by
  unfold connClose
  split <;> simp [Frame]

/-- So does the destructor, which closes what is still open. -/
@[simp] theorem connDone_frame : Frame l (l.connDone i) := by
  unfold connDone
  split <;> simp [Frame]

/-- A reference is taken, or the connection has been freed and the run faults. -/
@[simp] theorem increfConn_frame : Frame l (l.increfConn i) := by
  unfold increfConn
  split <;> simp [Frame]

@[simp] theorem decrefConnNull_frame : Frame l (l.decrefConnNull i) := by
  unfold decrefConnNull
  split <;> simp [Frame]

/-- The last reference runs the destructor. -/
@[simp] theorem decrefConn_frame : Frame l (l.decrefConn i) := by
  unfold decrefConn
  dsimp only
  split <;> simp [Frame]

@[simp] theorem increfReq_frame : Frame l (l.increfReq j) := by
  unfold increfReq
  split <;> simp [Frame]

@[simp] theorem decrefReq_frame : Frame l (l.decrefReq j) := by
  unfold decrefReq
  split <;> simp [Frame]

@[simp] theorem connInit_frame : Frame l (l.connInit i) := by
  simp [Frame, connInit]

/-- A new connection is a heap object with a descriptor of its own. -/
@[simp] theorem newConn_frame (fd : Fd) (ep : Endpoint) (ok : Bool) :
    Frame l (l.newConn fd ep ok) := by
  simp [Frame, newConn]

/-- A new request is a heap object. -/
@[simp] theorem newReq_frame (req : NetReq) (kind : HandlerKind) :
    Frame l (l.newReq req kind) := by
  simp [Frame, newReq]

/-- Dropping what the pool holds leaves the pool itself to its owner. -/
@[simp] theorem dropPool_frame (ts : List (Endpoint × ConnIx)) : Frame l (l.dropPool ts) := by
  induction ts generalizing l with
  | nil => simp [Frame, dropPool]
  | cons t ts ih => simp [Frame, dropPool, ih]

/-- The same for the list. -/
@[simp] theorem dropList_frame (es : List (Nat × Entry)) : Frame l (l.dropList es) := by
  induction es generalizing l with
  | nil => simp [Frame, dropList]
  | cons e es ih => simp [Frame, dropList, ih]

-- ============================================================================
-- Program counters and waits
-- ============================================================================

@[simp] theorem setReqPc_req (pc : ReqPc) : (l.setReqPc pc).cl.req = pc := rfl

/-- Setting the counter of the request coroutine. -/
@[simp] theorem setReqPc_frame (pc : ReqPc) :
    (l.setReqPc pc).c = l.c ∧ (l.setReqPc pc).cl.mem = l.cl.mem ∧
      (l.setReqPc pc).cl.cxt = l.cl.cxt ∧ (l.setReqPc pc).cl.reqWait = l.cl.reqWait ∧
      (l.setReqPc pc).cl.rsp = l.cl.rsp ∧ (l.setReqPc pc).cl.rspWait = l.cl.rspWait ∧
      (l.setReqPc pc).cl.hist = l.cl.hist ∧ (l.setReqPc pc).sh = l.sh := by
  simp [setReqPc]

@[simp] theorem setRspPc_rsp (pc : RspPc) : (l.setRspPc pc).cl.rsp = pc := rfl

/-- Setting the counter of the response coroutine. -/
@[simp] theorem setRspPc_frame (pc : RspPc) :
    (l.setRspPc pc).c = l.c ∧ (l.setRspPc pc).cl.mem = l.cl.mem ∧
      (l.setRspPc pc).cl.cxt = l.cl.cxt ∧ (l.setRspPc pc).cl.reqWait = l.cl.reqWait ∧
      (l.setRspPc pc).cl.req = l.cl.req ∧ (l.setRspPc pc).cl.rspWait = l.cl.rspWait ∧
      (l.setRspPc pc).cl.hist = l.cl.hist ∧ (l.setRspPc pc).sh = l.sh := by
  simp [setRspPc]

end Local

/-- A step completes a lookup, or it is one of the main loop, or of the coroutine
    that runs. -/
theorem World.step_cases {w w' : World} {ch : Choice} (h : w.step ch = some w') :
    (∃ eid, w.dnsDone eid = some w') ∨
    (w.sh.callCxt = none ∧ w.mainStep ch = some w') ∨
    ∃ x cl l', w.sh.callCxt = some x ∧ w.clients x.client = some cl ∧
      coStep x.side ⟨x.client, cl, w.sh⟩ ch = some l' ∧
      w' = { w.setClient x.client l'.cl with sh := l'.sh } := by
  unfold step at h
  split at h
  · exact absurd h (by simp)
  · split at h
    · exact .inl ⟨_, h⟩
    · rename_i hrun
      exact .inr (.inl ⟨hrun, h⟩)
    · rename_i x _ hrun
      split at h
      · exact absurd h (by simp)
      · rename_i cl hcl
        obtain ⟨l', hl', rfl⟩ := Option.map_eq_some_iff.mp h
        exact .inr (.inr ⟨x, cl, l', hrun, hcl, hl', rfl⟩)

end HttpProxy
