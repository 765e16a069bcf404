/-
  HttpProxy.Notify.Wrap

  Runs long enough for the event ids to wrap.  A visitor is a client that
  connects and leaves; it uses two ids and changes nothing else (`visit`), so an
  induction on the visitors brings `id_max` to any value (`visits`) while one
  request waits for its server (`Stalled`).
-/

import HttpProxy.Notify.Proxy
import HttpProxy.System.Client

namespace HttpProxy

open Lib Notify

-- ============================================================================
-- Steps that lead from one world to another
-- ============================================================================

/-- Some run leads from `w` to `w'`. -/
def World.Leads (w w' : World) : Prop := Run World.step (fun _ _ => True) w w'

/-- `w` with the client and the shared state of `l`. -/
def World.setLocal (w : World) (l : Local) : World := { w.setClient l.c l.cl with sh := l.sh }

/-- The coroutine on `side` has been resumed by the event at the head of the queue
    `queue`. -/
def Local.woken (l : Local) (side : Side) (ret : Int) (queue : List (EventId × Bool)) : Local :=
  { l with
    cl := l.cl.resume side ret
    sh.ev.queue := queue
    sh.main := .eventRet
    sh.callCxt := some (l.co side) }

/-- Descriptor `fd` of client `c` fails a read and is closed. -/
def Net.hangUp (net : Net) (c : ClientId) (fd : Fd) : Net :=
  ((((net.act c 0 .recv fd).act c 0 .del fd).netPullDel fd).act c 0 .close fd).sysClose fd

/-- A step with this choice is one of the coroutine that runs. -/
def Local.goes (l : Local) (ch : Choice) : Bool :=
  l.sh.callCxt.isSome && l.sh.fault.isNone && match ch with
    | .dnsDone _ => false
    | _ => true

namespace World

variable {w w₁ w' : World} {l l' : Local} {side : Side}

theorem Leads.refl (w : World) : w.Leads w := .start

theorem Leads.trans (h₁ : w.Leads w₁) (h₂ : w₁.Leads w') : w.Leads w' := Run.append h₁ h₂

theorem leads_step (ch : Choice) (h : w.step ch = some w') : w.Leads w' := .step .start trivial h

theorem setLocal_setLocal (hc : l'.c = l.c) : (w.setLocal l).setLocal l' = w.setLocal l' := by
  simp [setLocal, setClient, hc]

/-- The coroutine that runs makes a step. -/
theorem leads_coStep {ch : Choice} (hgo : l.goes ch = true) (hrun : l.sh.callCxt = some ⟨l.c, side⟩)
    (h : coStep side l ch = some l') : (w.setLocal l).Leads (w.setLocal l') := by
  have hc : l'.c = l.c := by
    cases side with
    | req => exact (reqStep_refines h).c
    | rsp => exact (rspStep_refines h).c
  have hfault : (w.setLocal l).sh.fault = none := by
    simp only [Local.goes, Bool.and_eq_true, Option.isNone_iff_eq_none] at hgo
    exact hgo.1.2
  have hrun' : (w.setLocal l).sh.callCxt = some ⟨l.c, side⟩ := hrun
  have hcl : (w.setLocal l).clients l.c = some l.cl := by simp [setLocal, setClient]
  have heq : w.setLocal l' = { (w.setLocal l).setClient l.c l'.cl with sh := l'.sh } := by
    rw [← setLocal_setLocal (w := w) hc]
    simp [setLocal, hc]
  have hlocal : (⟨l.c, l.cl, (w.setLocal l).sh⟩ : Local) = l := rfl
  refine leads_step ch ?_
  rw [heq]
  cases ch with
  | dnsDone eid => simp [Local.goes] at hgo
  | _ => simp [step, hfault, hrun', hcl, hlocal, h]

/-- The event at the head of the queue resumes its coroutine. -/
theorem leads_wake {c : ClientId} {cl : Client} {eid : EventId} {d : Bool}
    {q : List (EventId × Bool)} (hfault : w.sh.fault = none) (hrun : w.sh.callCxt = none)
    (hmain : w.sh.main = .eventWork) (hqueue : w.sh.ev.queue = (eid, d) :: q)
    (hh : w.sh.ev.handlers eid = some ⟨c, side⟩) (hcl : w.clients c = some cl)
    (hfin : cl.isFinished side = false) :
    w.Leads (w.setLocal (Local.woken ⟨c, cl, w.sh⟩ side (if d then 0 else 1) ((eid, d) :: q))) := by
  have hev : { w.sh.ev with queue := (eid, d) :: q } = w.sh.ev := by rw [← hqueue]
  refine leads_step .tau ?_
  simp [step, mainStep, hfault, hrun, hmain, eventWork, hqueue, hh, asyncResume, hcl, hfin,
    setLocal,
    Local.woken, Local.co, setClient, hev]

/-- The main loop drops the event it has dispatched. -/
theorem leads_ret {e : EventId × Bool} {q : List (EventId × Bool)} (hfault : w.sh.fault = none)
    (hrun : w.sh.callCxt = none) (hmain : w.sh.main = .eventRet) (hqueue : w.sh.ev.queue = e :: q) :
    w.Leads ({ w with sh.ev.queue := q }.setMain .eventWork) := by
  refine leads_step .tau ?_
  simp [step, mainStep, hfault, hrun, hmain, hqueue]

/-- The next event resumes its coroutine. -/
theorem leads_event {c : ClientId} {cl : Client} {e : EventId × Bool} {eid : EventId} {d : Bool}
    {q : List (EventId × Bool)} (hfault : w.sh.fault = none) (hrun : w.sh.callCxt = none)
    (hmain : w.sh.main = .eventRet) (hqueue : w.sh.ev.queue = e :: (eid, d) :: q)
    (hh : w.sh.ev.handlers eid = some ⟨c, side⟩) (hcl : w.clients c = some cl)
    (hfin : cl.isFinished side = false) :
    w.Leads (w.setLocal (Local.woken ⟨c, cl, w.sh⟩ side (if d then 0 else 1) ((eid, d) :: q))) :=
  (leads_ret hfault hrun hmain hqueue).trans (leads_wake hfault hrun rfl rfl hh hcl hfin)

/-- The next event has no handler. -/
theorem leads_skip {e e' : EventId × Bool} {q : List (EventId × Bool)} (hfault : w.sh.fault = none)
    (hrun : w.sh.callCxt = none) (hmain : w.sh.main = .eventRet)
    (hqueue : w.sh.ev.queue = e :: e' :: q) (hh : w.sh.ev.handlers e'.1 = none) :
    w.Leads { w with sh.ev.queue := e' :: q } := by
  refine (leads_ret hfault hrun hmain hqueue).trans (leads_step .tau ?_)
  simp [step, mainStep, setMain, hfault, hrun, eventWork, hh, ← hmain]

/-- The coroutine that runs goes on until it gives up control. -/
theorem leads_drive {n : Nat} {as : List Choice} (hrun : l.sh.callCxt = some ⟨l.c, side⟩)
    (h : drive (coStep side) .tau Local.goes n l as = some l') :
    (w.setLocal l).Leads (w.setLocal l') := by
  have hr : Run (coStep side) (fun l ch => l.goes ch = true) l l' := run_of_drive .start h
  have hinv : l'.c = l.c ∧ (l'.sh.callCxt.isSome = true → l'.sh.callCxt = some ⟨l.c, side⟩) ∧
      (w.setLocal l).Leads (w.setLocal l') := by
    refine hr.invariant (fun l' => l'.c = l.c ∧
      (l'.sh.callCxt.isSome = true → l'.sh.callCxt = some ⟨l.c, side⟩) ∧
      (w.setLocal l).Leads (w.setLocal l')) ⟨rfl, fun _ => hrun, .refl _⟩ ?_
    rintro l₁ l₂ ch ⟨hc, hcx, hl⟩ hgo hs
    have hsome : l₁.sh.callCxt.isSome = true := by
      simp only [Local.goes, Bool.and_eq_true] at hgo
      exact hgo.1.1
    have hc₂ : l₂.c = l₁.c := by
      cases side with
      | req => exact (reqStep_refines hs).c
      | rsp => exact (rspStep_refines hs).c
    refine ⟨hc₂.trans hc, fun h₂ => ?_, hl.trans (leads_coStep hgo (hc ▸ hcx hsome) hs)⟩
    rcases coStep_callCxt hs with heq | hnone
    · exact heq.trans (hcx hsome)
    · simp [hnone] at h₂
  exact hinv.2.2

-- ============================================================================
-- A visitor: a client that connects and leaves
-- ============================================================================

/-- The table entry of the listening descriptor. -/
def listener : PullEnt := { fd := 5, rd := some (.accept 5), wr := none, err := none }

/-- The main loop waits for descriptors with nothing queued, and `fd` is free. -/
structure Rests (w : World) (fd : Fd) : Prop where
  fault : w.sh.fault = none
  callCxt : w.sh.callCxt = none
  mainStat : w.sh.mainStat = .running
  main : w.sh.main = .epollWait
  queue : w.sh.ev.queue = []
  fdCnt : w.sh.net.fdCnt ≠ 0
  listens : w.sh.net.pullFind 5 = some listener
  listen : ∀ e ∈ w.sh.net.table, e.fd = 5 → e = listener
  polled : w.sh.net.epoll 5 = true
  free : w.sh.net.fds fd = none
  unpolled : w.sh.net.epoll fd = false
  fresh : ∀ e ∈ w.sh.net.table, e.fd ≠ fd

/-- The accept handler is taken out of the table and put back. -/
theorem relisten {net : Net} (h : ∀ e ∈ net.table, e.fd = 5 → e = listener) :
    ((net.netPullSetHandler 5 .read none).netPullSetHandler 5 .write none).netPullSetHandler 5 .read
      (some (.accept 5)) = net := by
  obtain ⟨table, _, _, _, _⟩ := net
  simp only [Net.netPullSetHandler, List.map_map, Net.mk.injEq, and_true]
  refine (List.map_congr_left fun e he => ?_).trans (List.map_id _)
  by_cases hfd : e.fd = 5
  · rw [h e he hfd]
    rfl
  · simp [hfd]

/-- A client connects; `evs` is the rest of the batch. -/
theorem leads_accept {fd : Fd} (ep : Endpoint) (evs : List EpollEvent)
    (hfault : w.sh.fault = none) (hrun : w.sh.callCxt = none)
    (hmain : w.sh.main = .next (.batch (⟨5, false⟩ :: evs)))
    (hlistens : w.sh.net.pullFind 5 = some listener)
    (hlisten : ∀ e ∈ w.sh.net.table, e.fd = 5 → e = listener) (hfree : w.sh.net.fds fd = none) :
    w.Leads ({ w with sh.main := .next (.batch evs) }.acceptConn fd ep true) := by
  have hnext : w.step .tau =
      some ({ w with
        sh.net :=
          (w.sh.net.netPullSetHandler 5 .read none).netPullSetHandler 5 .write none }.setMain
          (.callRead ⟨5, false⟩ listener (.batch evs))) := by
    simp [step, mainStep, setMain, hfault, hrun, hmain, nextTodo, hlistens]
  have hcall : ({ w with
      sh.net := (w.sh.net.netPullSetHandler 5 .read none).netPullSetHandler 5 .write none }.setMain
        (.callRead ⟨5, false⟩ listener (.batch evs))).step .tau =
      some (w.setMain (.accept 5 (.callWrite ⟨5, false⟩ listener (.batch evs)))) := by
    simp [step, mainStep, setMain, hfault, hrun, listener, callHandler, relisten hlisten]
  have haccept : (w.setMain (.accept 5 (.callWrite ⟨5, false⟩ listener (.batch evs)))).step
      (.accept (.conn fd ep true)) =
      some ((w.setMain (.accept 5 (.callWrite ⟨5, false⟩ listener (.batch evs)))).acceptConn fd ep
        true) := by
    simp [step, mainStep, setMain, hfault, hrun, hfree]
  have hstop :
      ((w.setMain (.accept 5 (.callWrite ⟨5, false⟩ listener (.batch evs)))).acceptConn fd ep
      true).step (.accept .stop) =
      some (({ w with sh.main := .callWrite ⟨5, false⟩ listener (.batch evs) }).acceptConn fd ep
        true) := by
    simp [step, mainStep, setMain, hfault, hrun, acceptConn, newClient]
  refine (leads_step _ hnext).trans ((leads_step _ hcall).trans ((leads_step _ haccept).trans
    ((leads_step _ hstop).trans (leads_step .tau ?_))))
  simp [step, mainStep, setMain, hfault, hrun, acceptConn, newClient, listener]

/-- `epoll_wait` returns a batch. -/
theorem leads_epoll {fd : Fd} (h : w.Rests fd) (evs : List EpollEvent)
    (hevs : evs.all (fun ev => w.sh.net.epoll ev.fd) = true) :
    w.Leads (w.setMain (.next (.batch evs))) := by
  refine leads_step (.epoll evs) ?_
  simp [step, mainStep, h.fault, h.callCxt, h.main, epollWait, h.fdCnt, hevs]

/-- The connection of a visitor on descriptor `fd`. -/
def visitorConn (fd : Fd) (ep : Endpoint) : Conn :=
  { fd, stat := .used, io := ioBufInit, ep, cnt := 2, shut := false }

/-- The request coroutine of a visitor cannot read, and says farewell. -/
theorem visitor_req (c : ClientId) (sh₀ : Shared) (fd : Fd) (ep : Endpoint)
    (q : List (EventId × Bool)) (sh : Shared) (hfault : sh.fault = none)
    (hstat : sh.mainStat = .running) :
    ∃ l₁, drive (coStep .req) .tau Local.goes 60
        (Local.woken ⟨c, newClient sh₀ (visitorConn fd ep), sh⟩ .req 0 q) [.sys .err] = some l₁ ∧
      l₁.c = c ∧
      l₁.cl.mem.conns 0 = { visitorConn fd ep with stat := .closed, shut := true } ∧
      l₁.cl.cxt = { (newClient sh₀ (visitorConn fd ep)).cxt with reqWillExit := true } ∧
      l₁.cl.req = .final ∧ l₁.cl.rsp = .start ∧
      l₁.sh = { sh with
        main := .eventRet
        callCxt := none
        ev := { sh.ev with
          queue := q ++ [(sh₀.ev.idMax + 1, false)]
          handlers := Function.update sh.ev.handlers sh₀.ev.idMax (some ⟨c, .req⟩) }
        net := sh.net.hangUp c fd } := by
  obtain ⟨_, _, _, ⟨_, _, _⟩, ⟨_, _, _, _, _⟩, _, _⟩ := sh
  subst hfault hstat
  exact ⟨_, rfl, rfl, rfl, rfl, rfl, rfl, rfl⟩

/-- The response coroutine of a visitor finds it closed, and leaves. -/
theorem visitor_rsp {w : World} {l : Local} (hfault : l.sh.fault = none) (hreq : l.cl.req = .final)
    (hrsp : l.cl.rsp = .start) (hstat : (l.cl.mem.conns 0).stat = .closed)
    (hcnt : (l.cl.mem.conns 0).cnt = 2) (hblocked : l.cl.cxt.reqBlocked = true)
    (q : List (EventId × Bool)) :
    ∃ l₂, (w.setLocal (Local.woken l .rsp 0 q)).Leads (w.setLocal l₂) ∧ l₂.c = l.c ∧
      l₂.cl.mem.conns 0 = { l.cl.mem.conns 0 with cnt := 1 } ∧
      l₂.cl.cxt = { l.cl.cxt with rspBlocked := false, reqWillExit := true } ∧
      l₂.cl.req = .final ∧
      l₂.sh = { l.sh with
        main := .eventRet
        callCxt := none
        ev := { l.sh.ev with
          queue := q ++ [(l.cl.cxt.evReq, false)]
          handlers := Function.update l.sh.ev.handlers l.cl.cxt.evRsp none } } := by
  have hloop : coStep .rsp (Local.woken l .rsp 0 q) .tau =
      some ((Local.woken l .rsp 0 q).setRspPc .exit) := by
    simp [coStep, rspStep, Local.woken, Client.resume, Client.resumeRsp, Local.cxtDead, hreq, hrsp,
      Local.rspLoop, Local.stopping, hstat]
  have hexit : coStep .rsp ((Local.woken l .rsp 0 q).setRspPc .exit) .tau =
      some ((Local.woken l .rsp 0 q).setRspPc .exit).rspExit := by
    simp [coStep, rspStep, Local.woken, Client.resume, Client.resumeRsp, Local.cxtDead, hreq, hrsp,
      Local.setRspPc]
  have hgo : (Local.woken l .rsp 0 q).goes .tau = true := by simp [Local.goes, Local.woken, hfault]
  have hgo' : ((Local.woken l .rsp 0 q).setRspPc .exit).goes .tau = true := hgo
  refine ⟨_, (leads_coStep hgo rfl hloop).trans (leads_coStep hgo' rfl hexit), ?_⟩
  simp [Local.woken, Client.resume, Client.resumeRsp, hrsp, hreq, Local.setRspPc, Local.rspExit,
    hblocked, Local.leave, Local.decrefConn, Local.decrefConnNull, hcnt, Mem.setConn,
    Events.eventPost, Events.eventFreeId]

/-- The request coroutine of a visitor is told, and tears its context down. -/
theorem visitor_cleanup {w : World} {l : Local} (hfault : l.sh.fault = none)
    (hreq : l.cl.req = .final) (hstat : (l.cl.mem.conns 0).stat = .closed)
    (hcnt : (l.cl.mem.conns 0).cnt = 1) (hpool : l.cl.cxt.pool = [])
    (hlist : l.cl.cxt.list.cells = []) (q : List (EventId × Bool)) :
    ∃ l₃, (w.setLocal (Local.woken l .req 1 q)).Leads (w.setLocal l₃) ∧ l₃.c = l.c ∧
      ∃ fd, fd = (l.cl.mem.conns 0).fd ∧ l₃.sh = { l.sh with
        main := .eventRet
        callCxt := none
        ev := { l.sh.ev with
          queue := q
          handlers := Function.update l.sh.ev.handlers l.cl.cxt.evReq none }
        net :=
          ((((l.sh.net.act l.c 0 .del fd).netPullDel fd).act l.c 0 .close fd).sysClose fd) } := by
  have hclean : coStep .req (Local.woken l .req 1 q) .tau =
      some (Local.woken l .req 1 q).reqCleanup := by
    simp [coStep, reqStep, Local.woken, Client.resume, Client.resumeReq, hreq]
  have hgo : (Local.woken l .req 1 q).goes .tau = true := by simp [Local.goes, Local.woken, hfault]
  refine ⟨_, leads_coStep hgo rfl hclean, ?_⟩
  simp [Local.woken, Client.resume, Client.resumeReq, hreq, Local.reqCleanup, hpool, hlist,
    Local.dropPool, Local.dropList, Local.leave, Local.decrefConn, Local.decrefConnNull, hcnt,
    Mem.setConn, Events.eventFreeId, Local.setReqPc, Local.connDone, hstat, Local.closeFd,
    Local.connDel]

/-- The same descriptors and handlers; the record of what was done may differ. -/
structure SameNet (net net' : Net) : Prop where
  table : net'.table = net.table
  fdCnt : net'.fdCnt = net.fdCnt
  polled : net'.epoll = net.epoll
  fds : net'.fds = net.fds

/-- Opening a free descriptor and hanging up changes nothing. -/
theorem hangUp_opened {net : Net} {fd : Fd} (c : ClientId) (o : FdOwner)
    (err : Option (ClientId × ConnIx)) (hfree : net.fds fd = none) (hpoll : net.epoll fd = false)
    (hfresh : ∀ e ∈ net.table, e.fd ≠ fd) :
    SameNet net (((net.sysOpen fd o).netPullAdd true fd err).hangUp c fd) := by
  have hnone : net.table.find? (·.fd = fd) = none := by
    simpa [List.find?_eq_none] using hfresh
  have hkept : net.table.filter (fun e => !decide (e.fd = fd)) = net.table := by
    simpa [List.filter_eq_self] using hfresh
  constructor <;>
    simp [Net.hangUp, Net.netPullAdd, Net.sysOpen, Net.act, Net.pullFind, hnone, Net.netPullDel,
      Net.sysClose, hkept, ← hfree, ← hpoll]

/-- Closing a descriptor that is free already changes nothing. -/
theorem close_free {net : Net} {fd : Fd} (c : ClientId) (hfree : net.fds fd = none)
    (hpoll : net.epoll fd = false) :
    SameNet net ((((net.act c 0 .del fd).netPullDel fd).act c 0 .close fd).sysClose fd) := by
  constructor <;>
    simp [Net.act, Net.netPullDel, Net.sysClose, Net.pullFind, hpoll, ← hfree]

theorem SameNet.trans {net₁ net₂ net₃ : Net} (h₁ : SameNet net₁ net₂) (h₂ : SameNet net₂ net₃) :
    SameNet net₁ net₃ :=
  ⟨h₂.table.trans h₁.table, h₂.fdCnt.trans h₁.fdCnt, h₂.polled.trans h₁.polled,
    h₂.fds.trans h₁.fds⟩

theorem Rests.of_sameNet {fd : Fd} (h : w.Rests fd) (hfault : w'.sh.fault = none)
    (hrun : w'.sh.callCxt = none) (hstat : w'.sh.mainStat = .running)
    (hmain : w'.sh.main = .epollWait) (hqueue : w'.sh.ev.queue = [])
    (hnet : SameNet w.sh.net w'.sh.net) : w'.Rests fd where
  fault := hfault
  callCxt := hrun
  mainStat := hstat
  main := hmain
  queue := hqueue
  fdCnt := hnet.fdCnt ▸ h.fdCnt
  listens := by rw [Net.pullFind, hnet.table]; exact h.listens
  listen := by rw [hnet.table]; exact h.listen
  polled := by rw [hnet.polled]; exact h.polled
  free := by rw [hnet.fds]; exact h.free
  unpolled := by rw [hnet.polled]; exact h.unpolled
  fresh := by rw [hnet.table]; exact h.fresh

/-- What a world keeps while a visitor comes and goes. -/
structure Visited (w w' : World) : Prop where
  nclients : w'.nclients = w.nclients + 1
  clients : ∀ c, c ≠ w.nclients → w'.clients c = w.clients c
  idMax : w'.sh.ev.idMax = w.sh.ev.idMax + 2
  handlers : ∀ e, e ≠ w.sh.ev.idMax → e ≠ w.sh.ev.idMax + 1 →
    w'.sh.ev.handlers e = w.sh.ev.handlers e
  net : SameNet w.sh.net w'.sh.net

theorem add_one_ne (e : EventId) : e + 1 ≠ e := by
  intro h
  have htn := congrArg UInt32.toNat h
  have hlt := e.toNat_lt
  rw [UInt32.toNat_add] at htn
  simp only [UInt32.reduceToNat] at htn
  omega

/-- A visitor comes and goes. -/
theorem visit {fd : Fd} (h : w.Rests fd) : ∃ w', w.Leads w' ∧ w'.Rests fd ∧ Visited w w' := by
  have hne : w.sh.ev.idMax + 1 ≠ w.sh.ev.idMax := add_one_ne w.sh.ev.idMax
  let ep : Endpoint := ⟨.inet, 0, []⟩
  let w₁ := ({ w with sh.main := .eventWork }).acceptConn fd ep true
  have hw₁ : w.Leads w₁ := by
    have hbatch := leads_epoll h [⟨5, false⟩] (by simp [h.polled])
    have haccept :=
      leads_accept (w := w.setMain (.next (.batch [⟨5, false⟩]))) ep [] h.fault h.callCxt
      rfl h.listens h.listen h.free
    refine hbatch.trans (haccept.trans (leads_step .tau ?_))
    simp [step, mainStep, nextTodo, setMain, acceptConn, newClient, h.fault, h.callCxt, w₁]
  -- the request coroutine starts, fails to read, and waits
  have hqueue₁ : w₁.sh.ev.queue = [(w.sh.ev.idMax, true), (w.sh.ev.idMax + 1, true)] := by
    simp [w₁, acceptConn, newClient, h.queue]
  have hcl₁ : w₁.clients w.nclients = some (newClient w.sh (visitorConn fd ep)) := by
    simp [w₁, acceptConn, newClient, visitorConn]
  have hh₁ : w₁.sh.ev.handlers w.sh.ev.idMax = some ⟨w.nclients, .req⟩ := by
    simp [w₁, acceptConn, newClient]
  have hwake := leads_wake (w := w₁) h.fault h.callCxt rfl hqueue₁ hh₁ hcl₁ rfl
  obtain ⟨⟨c, cl₂, sh₂⟩, hdrive, hc, hconn₂, hcxt₂, hreq₂, hrsp₂, hsh₂⟩ :=
    visitor_req w.nclients w.sh fd ep [(w.sh.ev.idMax, true), (w.sh.ev.idMax + 1, true)] w₁.sh
      h.fault h.mainStat
  dsimp only at hc hconn₂ hcxt₂ hreq₂ hrsp₂ hsh₂
  subst hc
  have hw₂ := hwake.trans (leads_drive rfl hdrive)
  -- the response coroutine starts, and returns
  let w₂ := w₁.setLocal ⟨w.nclients, cl₂, sh₂⟩
  have hqueue₂ : w₂.sh.ev.queue = (w.sh.ev.idMax, true) :: (w.sh.ev.idMax + 1, true) ::
      [(w.sh.ev.idMax + 1, false)] := by
    simp [w₂, setLocal, hsh₂]
  have hh₂ : w₂.sh.ev.handlers (w.sh.ev.idMax + 1) = some ⟨w.nclients, .rsp⟩ := by
    simp [w₂, setLocal, hsh₂, w₁, acceptConn, newClient, hne]
  have hcl₂ : w₂.clients w.nclients = some cl₂ := by simp [w₂, setLocal, setClient]
  have hfault₂ : w₂.sh.fault = none := by simp [w₂, setLocal, hsh₂, w₁, acceptConn, h.fault]
  have hwake₂ := leads_event hfault₂ (by simp [w₂, setLocal, hsh₂]) (by simp [w₂, setLocal, hsh₂])
    hqueue₂ hh₂ hcl₂ (by simp [Client.isFinished, hrsp₂])
  obtain ⟨⟨c, cl₃, sh₃⟩, hrsp, hc, hconn₃, hcxt₃, hreq₃, hsh₃⟩ :=
    visitor_rsp (w := w₂) (l := ⟨w.nclients, cl₂, w₂.sh⟩) hfault₂ hreq₂ hrsp₂
      (by simp [hconn₂]) (by simp [hconn₂, visitorConn]) (by simp [hcxt₂, newClient])
      [(w.sh.ev.idMax + 1, true), (w.sh.ev.idMax + 1, false)]
  dsimp only at hc hconn₃ hcxt₃ hreq₃ hsh₃
  subst hc
  have hw₃ := hw₂.trans (hwake₂.trans hrsp)
  -- its handler is gone when the farewell of the request coroutine is dispatched
  let w₃ := w₂.setLocal ⟨w.nclients, cl₃, sh₃⟩
  have hqueue₃ : w₃.sh.ev.queue = (w.sh.ev.idMax + 1, true) :: (w.sh.ev.idMax + 1, false) ::
      [(w.sh.ev.idMax, false)] := by
    simp [w₃, setLocal, hsh₃, hcxt₂, newClient]
  have hnone₃ : w₃.sh.ev.handlers (w.sh.ev.idMax + 1) = none := by
    simp [w₃, setLocal, hsh₃, hcxt₂, newClient]
  have hfault₃ : w₃.sh.fault = none := by
    simpa [w₃, setLocal, hsh₃] using hfault₂
  have hskip := leads_skip hfault₃ (by simp [w₃, setLocal, hsh₃]) (by simp [w₃, setLocal, hsh₃])
    hqueue₃ hnone₃
  have hh₃ : w₃.sh.ev.handlers w.sh.ev.idMax = some ⟨w.nclients, .req⟩ := by
    simp [w₃, setLocal, hsh₃, w₂, hsh₂, hcxt₂, newClient, hne.symm]
  have hcl₃ : w₃.clients w.nclients = some cl₃ := by simp [w₃, setLocal, setClient]
  have hwake₃ := leads_event (w := { w₃ with sh.ev.queue := (w.sh.ev.idMax + 1, false) ::
      [(w.sh.ev.idMax, false)] }) hfault₃ (by simp [w₃, setLocal, hsh₃])
    (by simp [w₃, setLocal, hsh₃]) rfl hh₃ hcl₃ (by simp [Client.isFinished, hreq₃])
  -- the request coroutine tears the context down
  obtain ⟨⟨c, cl₄, sh₄⟩, hclean, hc, fd', hfd, hsh₄⟩ :=
    visitor_cleanup (w := { w₃ with sh.ev.queue := (w.sh.ev.idMax + 1, false) ::
      [(w.sh.ev.idMax, false)] }) (l := ⟨w.nclients, cl₃, { w₃.sh with
        ev.queue := (w.sh.ev.idMax + 1, false) :: [(w.sh.ev.idMax, false)] }⟩)
      hfault₃ hreq₃ (by simp [hconn₃, hconn₂]) (by simp [hconn₃])
      (by simp [hcxt₃, hcxt₂, newClient]) (by simp only [hcxt₃, hcxt₂, newClient]; rfl)
      [(w.sh.ev.idMax, false)]
  dsimp only at hc hsh₄ hfd
  subst hc
  have hw₄ := hw₃.trans (hskip.trans (hwake₃.trans hclean))
  let w₄ := w₃.setLocal ⟨w.nclients, cl₄, sh₄⟩
  have hqueue₄ : w₄.sh.ev.queue = [(w.sh.ev.idMax, false)] := by simp [w₄, setLocal, hsh₄]
  have hfault₄ : w₄.sh.fault = none := by simpa [w₄, setLocal, hsh₄] using hfault₃
  have hrun₄ : w₄.sh.callCxt = none := by simp [w₄, setLocal, hsh₄]
  have hret := leads_ret hfault₄ hrun₄ (by simp [w₄, setLocal, hsh₄]) hqueue₄
  have hstat₄ : w₄.sh.mainStat = .running := by
    simp [w₄, setLocal, hsh₄, w₃, hsh₃, w₂, hsh₂, w₁, acceptConn, h.mainStat]
  have hwait : ({ w₄ with sh.ev.queue := [] }.setMain .eventWork).step .tau =
      some ({ w₄ with sh.ev.queue := [] }.setMain .epollWait) := by
    simp [step, mainStep, setMain, eventWork, hfault₄, hstat₄, hrun₄]
  have hnet : SameNet w.sh.net w₄.sh.net := by
    have hup := hangUp_opened w.nclients (.conn w.nclients 0) (some (w.nclients, 0)) h.free
      h.unpolled h.fresh
    have hdown := close_free w.nclients ((congrFun hup.fds fd).trans h.free)
      ((congrFun hup.polled fd).trans h.unpolled)
    have heq : w₄.sh.net = ((((((w.sh.net.sysOpen fd (.conn w.nclients 0)).netPullAdd true fd
        (some (w.nclients, 0))).hangUp w.nclients fd).act w.nclients 0 .del fd).netPullDel fd).act
          w.nclients 0 .close fd).sysClose fd := by
      simp [w₄, setLocal, hsh₄, w₃, hsh₃, w₂, hsh₂, w₁, acceptConn, hfd, hconn₃, hconn₂,
        visitorConn]
    exact heq ▸ hup.trans hdown
  refine ⟨_, hw₁.trans (hw₄.trans (hret.trans (leads_step .tau hwait))),
    h.of_sameNet hfault₄ hrun₄ hstat₄ rfl rfl hnet, ?_⟩
  refine ⟨rfl, fun c hc => ?_, ?_, fun e he he' => ?_, hnet⟩
  · simp [setMain, w₄, w₃, w₂, w₁, setLocal, setClient, acceptConn, Function.update_of_ne hc]
  · have hmax : w.sh.ev.idMax + 1 + 1 = w.sh.ev.idMax + 2 := by rw [UInt32.add_assoc]; rfl
    simp [setMain, w₄, setLocal, hsh₄, w₃, hsh₃, w₂, hsh₂, w₁, acceptConn, newClient, hmax]
  · simp [setMain, w₄, setLocal, hsh₄, w₃, hsh₃, w₂, hsh₂, w₁, acceptConn, newClient, hcxt₂, hcxt₃,
      Function.update_of_ne he, Function.update_of_ne he']

/-- `n` visitors come and go. -/
theorem visits {fd : Fd} (h : w.Rests fd) (n : Nat) : ∃ w', w.Leads w' ∧ w'.Rests fd ∧
    w'.nclients = w.nclients + n ∧ (∀ c, c < w.nclients → w'.clients c = w.clients c) ∧
    w'.sh.ev.idMax = w.sh.ev.idMax + UInt32.ofNat (2 * n) ∧ SameNet w.sh.net w'.sh.net := by
  induction n with
  | zero => exact ⟨w, .refl w, h, rfl, fun _ _ => rfl, by simp, ⟨rfl, rfl, rfl, rfl⟩⟩
  | succ n ih =>
      obtain ⟨w₁, hl₁, hr₁, hn₁, hcl₁, hid₁, hnet₁⟩ := ih
      obtain ⟨w₂, hl₂, hr₂, hv⟩ := visit hr₁
      refine ⟨w₂, hl₁.trans hl₂, hr₂, ?_, fun c hc => ?_, ?_, hnet₁.trans hv.net⟩
      · rw [hv.nclients, hn₁, Nat.add_assoc]
      · rw [hv.clients c (by omega), hcl₁ c hc]
      · rw [hv.idMax, hid₁, UInt32.add_assoc]
        congr 1
        rw [Nat.mul_succ, UInt32.ofNat_add]
        rfl

end World

-- ============================================================================
-- A request that waits for its server
-- ============================================================================

/-- A client sends a CONNECT request and waits for the connection to its server. -/
def stalledConnect : List Choice :=
  [.epoll [⟨5, false⟩], .accept (.conn 6 ⟨.inet, 1, [127, 0, 0, 1]⟩ true), .accept .stop,
    .sys (.ok (bytesOf "CONNECT a:1 HTTP/1.1\r\n\r\n")), .lookup true, .dnsDone 2,
    .epoll [⟨4, false⟩], .addrs (some [⟨.inet, [1, 2, 3, 4]⟩]), .connect (.inProgress 7 true)]

/-- The handler table meanwhile. -/
def stalledTable : List PullEnt :=
  [{ fd := 4, rd := some .dns, wr := none, err := none }, World.listener,
    { fd := 6, rd := none, wr := none, err := some (0, 0) },
    { fd := 7, rd := some (.co ⟨0, .req⟩), wr := none, err := some (0, 1) }]

/-- The request coroutine waits for the connection, the response coroutine for a
    request. -/
structure Client.Stalled (cl : Client) : Prop where
  req : ∃ rps, cl.req = .connect 0 1 rps
  client : (cl.mem.conns 0).fd = 6 ∧ (cl.mem.conns 0).stat = .used ∧ (cl.mem.conns 0).cnt = 2
  server : (cl.mem.conns 1).cnt = 1
  request : (cl.mem.reqs 0).kind = .connect ∧ (cl.mem.reqs 0).cnt = 1
  rsp : cl.rsp.pos = .empty
  evRsp : cl.cxt.evRsp = 1
  rspWillExited : cl.cxt.rspWillExited = false

/-- The connection is there: the request is appended and announced. -/
theorem stalled_appends {l : Local} (h : l.cl.Stalled) :
    ∃ l', coStep .req { l with cl := l.cl.resume .req 0, sh.callCxt := some ⟨0, .req⟩ } .tau =
        some l' ∧
      l'.c = l.c ∧ l'.cl.rsp = l.cl.rsp ∧ l'.cl.cxt.evRsp = 1 ∧ l'.cl.cxt.list.head ≠ none ∧
      l'.cl.cxt.rspWillExited = false ∧ l'.cl.cxt.evReq = l.cl.cxt.evReq ∧
      l'.cl.req = .io (.ok200 0 1) (do Io.mark .ok200; connWrite .client msg200) ∧
      l'.cl.mem.conns 0 = l.cl.mem.conns 0 ∧ (l'.cl.mem.conns 1).cnt = 3 ∧
      (l'.cl.mem.reqs 0).cnt = 2 ∧
      l'.sh = { l.sh with
        callCxt := some ⟨0, .req⟩
        ev := { l.sh.ev with queue := l.sh.ev.queue ++ [(1, true)] } } := by
  obtain ⟨⟨rps, hreq⟩, ⟨hfd, hused, hcnt⟩, hserver, ⟨hkind, hrcnt⟩, -, hev, hexit⟩ := h
  refine ⟨Local.connConnected { l with
    cl := l.cl.resume .req 0, sh.callCxt := some ⟨0, .req⟩ } 0 1 rps 0, ?_, ?_⟩
  · simp [coStep, reqStep, Client.resume, Client.resumeReq, hreq]
  · simp [Local.connConnected, Client.resume, Client.resumeReq, hreq, Local.gotNewConn,
      Local.connInit, Local.increfConn, Mem.setConn, hserver, Local.gotServer, hkind,
      Local.appendEntry, Local.increfReq, hrcnt, Mem.setReq, Local.setReqPc, hev, hexit,
      Events.eventPost, Cxt.poolAdd,
      ← Option.isSome_iff_ne_none, LinkedQueue.push_head_isSome]

/-- The answer cannot be written, and the request coroutine says farewell. -/
theorem answer_fails {l : Local} (hc : l.c = 0) (hfault : l.sh.fault = none)
    (hstat : l.sh.mainStat = .running) (hrun : l.sh.callCxt = some ⟨0, .req⟩)
    (hreq : l.cl.req = .io (.ok200 0 1) (do Io.mark .ok200; connWrite .client msg200))
    (hfd : (l.cl.mem.conns 0).fd = 6) (hused : (l.cl.mem.conns 0).stat = .used)
    (hcnt : (l.cl.mem.conns 0).cnt = 2) (hserver : (l.cl.mem.conns 1).cnt = 3)
    (hrcnt : (l.cl.mem.reqs 0).cnt = 2) (hexit : l.cl.cxt.rspWillExited = false) :
    ∃ l', drive (coStep .req) .tau Local.goes 30 l [.sys .err] = some l' ∧
      l'.c = 0 ∧ l'.cl.rsp = l.cl.rsp ∧ l'.cl.cxt.evRsp = l.cl.cxt.evRsp ∧
      l'.cl.cxt.list = l.cl.cxt.list ∧
      l'.sh = { l.sh with
        callCxt := none
        ev := { l.sh.ev with
          queue := l.sh.ev.queue ++ [(l.cl.cxt.evRsp, false)]
          handlers := Function.update l.sh.ev.handlers l.cl.cxt.evReq (some ⟨0, .req⟩) }
        net :=
          ((((l.sh.net.act 0 0 .send 6).act 0 0 .del 6).netPullDel 6).act 0 0 .close 6).sysClose
          6 } := by
  obtain ⟨c, ⟨⟨conns, nconn, reqs, nreq⟩, ⟨pool, list, _, evRsp, _, _, _, _⟩, req, _, rsp, _, _⟩,
    mainStat, main, _, ⟨queue, handlers, idMax⟩, ⟨table, _, epoll, fds, acts⟩, dns, fault⟩ := l
  dsimp only at *
  subst hc hfault hstat hrun hreq hexit
  have hconns : conns = Function.update (Function.update conns 1 (conns 1)) 0 (conns 0) := by simp
  have hreqs : reqs = Function.update reqs 0 (reqs 0) := by simp
  generalize conns 0 = k₀ at *
  generalize conns 1 = k₁ at *
  generalize reqs 0 = r₀ at *
  obtain ⟨_, _, _, _, _, _⟩ := k₀
  obtain ⟨_, _, _, _, _, _⟩ := k₁
  obtain ⟨_, _, _⟩ := r₀
  dsimp only at *
  subst hfd hused hcnt hserver hrcnt
  rw [hconns, hreqs]
  exact ⟨_, rfl, rfl, rfl, rfl, rfl, rfl⟩

namespace World

/-- The table entry of the server. -/
def stalledEnt : PullEnt :=
  { fd := 7, rd := some (.co ⟨0, .req⟩), wr := none, err := some (0, 1) }

/-- What the loop makes of the descriptors before the handlers of the server are
    called, and the coroutine after it. -/
def stalledNet (net : Net) : Net :=
  (((((((net.netPullSetHandler 7 .read none).netPullSetHandler 7 .write none).act 0 0
    .send 6).act 0 0
    .del 6).netPullDel 6).act 0 0 .close 6).sysClose 6)

/-- The listening descriptor is still registered, and 8 is still free. -/
theorem stalledNet_listens {net : Net} (htable : net.table = stalledTable)
    (hfree : net.fds 8 = none) :
    (stalledNet net).pullFind 5 = some listener ∧
      (∀ e ∈ (stalledNet net).table, e.fd = 5 → e = listener) ∧ (stalledNet net).fds 8 = none := by
  obtain ⟨table, cnt, epoll, fds, acts⟩ := net
  dsimp only at htable hfree
  subst htable
  cases h6 : epoll 6 with
  | true =>
      simp [stalledNet, Net.netPullSetHandler, Net.act, Net.netPullDel, Net.pullFind, Net.sysClose,
        stalledTable, listener, PullEnt.set, h6, hfree]
  | false =>
      simp [stalledNet, Net.netPullSetHandler, Net.act, Net.netPullDel, Net.pullFind, Net.sysClose,
        stalledTable, listener, PullEnt.set, h6, hfree]

/-- The connection to the server is there. -/
theorem leads_stalled {w : World} {cl : Client} {evs : List EpollEvent} (hfault : w.sh.fault = none)
    (hrun : w.sh.callCxt = none) (hstat : w.sh.mainStat = .running)
    (hmain : w.sh.main = .next (.batch (⟨7, false⟩ :: evs)))
    (hfind : w.sh.net.pullFind 7 = some stalledEnt) (hcl : w.clients 0 = some cl)
    (h : cl.Stalled) :
    ∃ l, w.Leads (w.setLocal l) ∧ l.c = 0 ∧ l.cl.rsp = cl.rsp ∧ l.cl.cxt.evRsp = 1 ∧
      l.cl.cxt.list.head ≠ none ∧
      l.sh = { w.sh with
        main := .callWrite ⟨7, false⟩ stalledEnt (.batch evs)
        ev := { w.sh.ev with
          queue := w.sh.ev.queue ++ [(1, true)] ++ [(1, false)]
          handlers := Function.update w.sh.ev.handlers cl.cxt.evReq (some ⟨0, .req⟩) }
        net := stalledNet w.sh.net } := by
  let net := (w.sh.net.netPullSetHandler 7 .read none).netPullSetHandler 7 .write none
  have hnext : w.step .tau = some ({ w with sh.net := net }.setMain
      (.callRead ⟨7, false⟩ stalledEnt (.batch evs))) := by
    simp [step, mainStep, setMain, hfault, hrun, hmain, nextTodo, hfind, net]
  let l₀ : Local := ⟨0, cl, { w.sh with
    main := .callWrite ⟨7, false⟩ stalledEnt (.batch evs)
    net := net }⟩
  have hfin : cl.isFinished .req = false := by
    obtain ⟨rps, hreq⟩ := h.req
    simp [Client.isFinished, hreq]
  have hcall :
      ({ w with sh.net := net }.setMain (.callRead ⟨7, false⟩ stalledEnt (.batch evs))).step
      .tau = some (w.setLocal { l₀ with
        cl := l₀.cl.resume .req 0, sh.callCxt := some ⟨0, .req⟩ }) := by
    simp [step, mainStep, setMain, hfault, hrun, stalledEnt, callHandler, asyncResume, hcl,
      hfin, l₀,
      setLocal, setClient]
  obtain ⟨l₁, happ, hc₁, hrsp₁, hev₁, hhead₁, hexit₁, hreq₁, hpc₁, hconn₁, hserver₁, hr₁, hsh₁⟩ :=
    stalled_appends (l := l₀) h
  have hc₁' : l₁.c = 0 := hc₁
  obtain ⟨l₂, hdrive, hc₂, hrsp₂, hev₂, hlist₂, hsh₂⟩ := answer_fails (l := l₁) hc₁'
    (by simp [hsh₁, l₀, hfault]) (by simp [hsh₁, l₀, hstat]) (by simp [hsh₁]) hpc₁
    (by simp [hconn₁, l₀, h.client]) (by simp [hconn₁, l₀, h.client])
    (by simp [hconn₁, l₀, h.client]) hserver₁ hr₁ hexit₁
  have hgo : ({ l₀ with cl := l₀.cl.resume .req 0, sh.callCxt := some ⟨0, .req⟩ } : Local).goes
      .tau = true := by
    simp [Local.goes, l₀, hfault]
  have hrun₁ : l₁.sh.callCxt = some ⟨l₁.c, .req⟩ := by simp [hsh₁, hc₁']
  refine ⟨l₂, (leads_step _ hnext).trans ((leads_step _ hcall).trans
    ((leads_coStep hgo rfl happ).trans (leads_drive hrun₁ hdrive))), hc₂, hrsp₂.trans hrsp₁,
    hev₂.trans hev₁, hlist₂ ▸ hhead₁, ?_⟩
  simp [hsh₂, hsh₁, hev₁, hreq₁, l₀, stalledNet, net, hrun]

/-- `Client.Stalled`, computed. -/
def isStalled (cl : Client) : Bool :=
  (match cl.req with
    | .connect 0 1 _ => true
    | _ => false) &&
  ((cl.mem.conns 0).fd = 6 ∧ (cl.mem.conns 0).stat = .used ∧ (cl.mem.conns 0).cnt = 2 ∧
    (cl.mem.conns 1).cnt = 1 ∧ (cl.mem.reqs 0).kind = .connect ∧ (cl.mem.reqs 0).cnt = 1 ∧
    cl.rsp.pos = .empty ∧ cl.cxt.evRsp = 1 ∧ cl.cxt.rspWillExited = false)

theorem stalled_of_isStalled {cl : Client} (h : isStalled cl = true) : cl.Stalled := by
  unfold isStalled at h
  split at h
  · rename_i rps hreq
    simp only [Bool.true_and, decide_eq_true_eq] at h
    obtain ⟨hfd, hused, hcnt, hserver, hkind, hrcnt, hrsp, hev, hexit⟩ := h
    exact ⟨⟨rps, hreq⟩, ⟨hfd, hused, hcnt⟩, hserver, ⟨hkind, hrcnt⟩, hrsp, hev, hexit⟩
  · simp at h

/-- The world the run of `stalledConnect` ends in. -/
def isWaiting (w : World) : Bool :=
  w.sh.fault = none ∧ w.sh.callCxt = none ∧ w.sh.mainStat = .running ∧ w.sh.main = .epollWait ∧
    w.sh.ev.queue = [] ∧ w.sh.net.fdCnt ≠ 0 ∧ w.sh.net.table = stalledTable ∧
    w.sh.net.epoll 5 = true ∧ w.sh.net.epoll 7 = true ∧ w.sh.net.epoll 8 = false ∧
    w.sh.net.fds 8 = none ∧ w.sh.ev.idMax = 3 ∧ w.nclients = 1

/-- A request waits for its server and the event ids have wrapped: the next one is
    the id of `ev_notice_rsp` of the client that waits. -/
theorem wrapped_reachable : ∃ (w : World) (cl : Client), w.Reachable ∧ w.Rests 8 ∧
    w.clients 0 = some cl ∧ cl.Stalled ∧ w.sh.net.table = stalledTable ∧
    w.sh.net.epoll 7 = true ∧ w.sh.ev.idMax = 1 ∧ 0 < w.nclients := by
  have hd : (driveInit (fun _ _ => true) 300 stalledConnect).any (fun w =>
      isWaiting w && (w.clients 0).any isStalled) = true := by
    decide +kernel
  obtain ⟨w, hr, hp⟩ := reachable_of_drive hd
  simp only [Bool.and_eq_true, Option.any_eq_true] at hp
  obtain ⟨hwait, cl, hcl, hst⟩ := hp
  obtain ⟨hfault, hrun, hstat, hmain, hqueue, hcnt, htable, h5, h7, h8, hfree, hid, hn⟩ :=
    of_decide_eq_true hwait
  have hrests : w.Rests 8 := by
    refine ⟨hfault, hrun, hstat, hmain, hqueue, hcnt, ?_, ?_, h5, hfree, h8, ?_⟩
    · rw [Net.pullFind, htable]
      rfl
    · rw [htable]
      decide
    · rw [htable]
      decide
  -- 2 * (2^31 - 1) more ids
  obtain ⟨w', hl, hr', hn', hcl', hid', hnet⟩ := visits hrests (2 ^ 31 - 1)
  refine ⟨w', cl, Run.append hr hl, hr', ?_, stalled_of_isStalled hst, ?_, ?_, ?_, by omega⟩
  · rw [hcl' 0 (by omega), hcl]
  · rw [hnet.table, htable]
  · rw [hnet.polled, h7]
  · rw [hid', hid]
    rfl

end World
end HttpProxy
