/-
  HttpProxy.Notify.Proxy

  What the invariants of the notification protocol say about the proxy: the
  shutdown of a client does not deadlock, and wake-ups match waits, each in runs
  whose steps keep clear of what breaks it.
-/

import HttpProxy.System.Client
import HttpProxy.Notify.Refine
import HttpProxy.Notify.Shutdown

namespace HttpProxy

open Lib Notify

-- ============================================================================
-- The start
-- ============================================================================

theorem heard_init : Heard World.init.notify where
  ids := ⟨fun _ _ => rfl,
    fun _ _ ho => absurd ho.choose_spec.1 (by simp [World.notify, World.init]),
    fun _ _ _ ho => absurd ho.choose_spec.1 (by simp [World.notify, World.init]),
    fun _ _ _ hp => absurd hp (by simp [World.notify, World.init])⟩
  queue := fun h => absurd h (by simp [World.notify, World.init, Shared.hub])
  exit := fun h => absurd h (by simp [World.notify, World.init, Shared.hub])
  reqHandler := fun _ _ hp => absurd hp (by simp [World.notify, World.init])
  rspHandler := fun _ _ hp => absurd hp (by simp [World.notify, World.init])
  blocked := fun _ _ hp => absurd hp (by simp [World.notify, World.init])
  notice := fun _ _ hp => absurd hp (by simp [World.notify, World.init])

theorem matched_init : Matched World.init.notify where
  heard := heard_init
  park := ⟨fun _ _ _ hp => absurd hp (by simp [World.notify, World.init]),
    fun _ _ _ hp => absurd hp (by simp [World.notify, World.init])⟩
  io := by
    refine ⟨?_,
      fun fd d x hx => absurd hx (by simp [World.notify, World.init, Shared.hub, Main.calls]),
      ?_, ?_,
      fun fd d x hx => absurd hx (by simp [World.notify, World.init, Shared.hub, Main.calls])⟩
    · rintro fd d x ⟨e, he, -, hx⟩
      simp only [World.notify, World.init, Shared.hub, List.mem_cons, List.not_mem_nil,
        or_false] at he
      rcases he with rfl | rfl <;> cases d <;> simp [PullEnt.co] at hx
    · simp [World.notify, World.init, Shared.hub, TableOk, World.signalFd]
    · simp [World.notify, World.init, Shared.hub, Main.calls]
  fresh := fun _ _ => by simp [World.notify, World.init, Shared.hub, Hub.tok, Hub.queue]
  lookups := fun _ _ _ _ hp => absurd hp (by simp [World.notify, World.init])
  live := fun _ _ hh => absurd hh (by simp [World.notify, World.init, Shared.hub])
  blocked := fun _ _ hp => absurd hp (by simp [World.notify, World.init])
  due := fun _ _ hp => absurd hp (by simp [World.notify, World.init])
  dns := fun _ _ _ hp => absurd hp (by simp [World.notify, World.init])
  start := fun _ _ hp => absurd hp (by simp [World.notify, World.init])
  quiet := fun _ _ _ _ _ hp => absurd hp (by simp [World.notify, World.init])

/-- An invariant of the protocol is one of the proxy. -/
theorem notify_invariant {ok : World → Choice → Prop} {I : State → Prop}
    (hstart : I World.init.notify)
    (hstep : ∀ w w' ch, I w.notify → ok w ch → w.step ch = some w' →
      Step w.notify w'.notify → I w'.notify)
    {w : World} (h : Run World.step ok World.init w) : I w.notify := by
  have hinv : w.sh.main.Ok ∧ I w.notify := by
    refine h.invariant (fun w => w.sh.main.Ok ∧ I w.notify) ⟨trivial, hstart⟩ ?_
    rintro w w' ch ⟨hmain, hI⟩ hok hs
    have hr := World.step_refines hmain hs
    exact ⟨hr.2, hstep w w' ch hI hok hs hr.1⟩
  exact hinv.2

theorem noWrap_of_idsLeft {w : World} (h : w.idsLeft = true) : NoWrap w.notify := by
  show w.sh.ev.idMax.toNat + 2 < 2 ^ 32
  exact of_decide_eq_true h

-- ============================================================================
-- Runs of one client
-- ============================================================================

/-- A client connects and sends a request, which is forwarded to a server; both
    coroutines then wait for I/O. -/
def oneRequest : List Choice :=
  [.epoll [⟨5, false⟩], .accept (.conn 6 ⟨.inet, 1, [127, 0, 0, 1]⟩ true), .accept .stop,
    .sys (.ok (bytesOf "GET http://a/ HTTP/1.1\r\n\r\n")), .lookup true, .dnsDone 2,
    .epoll [⟨4, false⟩], .addrs (some [⟨.inet, [1, 2, 3, 4]⟩]), .connect (.connected 7 true),
    .sys (.ok (bytesOf "GET / HTTP/1.1\r\nHost: a\r\n\r\n")), .sys .again, .sys .again]

/-- Then a second request comes, for a host that refuses the connection. -/
def refusedRequest : List Choice :=
  [.epoll [⟨6, false⟩], .sys (.ok (bytesOf "GET http://b/ HTTP/1.1\r\n\r\n")), .lookup true,
    .dnsDone 3, .epoll [⟨4, false⟩], .addrs (some [⟨.inet, [1, 2, 3, 5]⟩]), .connect .fail,
    .sys (.ok msg502)]

/-- The server answers the first. -/
def oneResponse : List Choice :=
  [.epoll [⟨7, false⟩], .sys (.ok (bytesOf "HTTP/1.1 204 No Content\r\n\r\n")),
    .sys (.ok (bytesOf "HTTP/1.1 204 No Content\r\n\r\n"))]

-- ============================================================================
-- Shutdown
-- ============================================================================

def Wait.isIo : Wait → Bool
  | .io _ _ => true
  | .event _ => false

/-- The request coroutine does not come to `req_done` when the response coroutine has
    already returned. -/
def Local.heeds (side : Side) (l : Local) (_ : Choice) : Bool :=
  match side with
  | .req => !(l.cl.req.pos = .done && l.cl.rsp.pos = .finished)
  | .rsp => true

/-- `event_work` does not dispatch an event with NULL data, the farewell of a request
    coroutine, to a response coroutine that waits for I/O. -/
def World.farewellOk (w : World) (ch : Choice) : Bool :=
  match ch with
  | .dnsDone _ => true
  | _ =>
      !(w.sh.main = .eventWork && w.sh.ev.queue.head?.any fun e => !e.2 &&
        (w.sh.ev.handlers e.1).any fun x => x.side = .rsp &&
          (w.clients x.client).any fun cl => cl.rspWait.any Wait.isIo)

def World.shutdownOk (w : World) (ch : Choice) : Bool :=
  w.idsLeft && w.coOk Local.heeds ch && w.farewellOk ch

theorem peers_eq {w : World} {c : ClientId} {p : Peer} (h : w.notify.peers c = some p) :
    ∃ cl, w.clients c = some cl ∧ p = cl.peer := by
  obtain ⟨cl, hcl, hp⟩ := Option.map_eq_some_iff.mp h
  exact ⟨cl, hcl, hp.symm⟩

theorem World.nextTodo_callCxt (w : World) (t : Todo) :
    (w.nextTodo t).sh.callCxt = w.sh.callCxt := by
  cases t with
  | batch evs =>
      cases evs with
      | nil => rfl
      | cons ev evs =>
          rw [nextTodo]
          split
          · rfl
          · dsimp only [setMain]
            split
            · exact connErr_callCxt _ _
            · rfl
  | done ents =>
      cases ents with
      | nil => rfl
      | cons nh ents => exact connErr_callCxt w nh.err

/-- Only `event_work` takes an event out of the queue and calls a coroutine. -/
theorem World.mainStep_dispatch {w w' : World} {ch : Choice} {x : Co} {e : EventId × Bool}
    (hnone : w.sh.callCxt = none) (h : w.mainStep ch = some w') (hrun : w'.sh.callCxt = some x)
    (hq : w.sh.hub.queue = e :: w'.sh.hub.queue) : w.sh.main = .eventWork := by
  have hidle (hsame : w'.sh.callCxt = w.sh.callCxt) : w.sh.main = .eventWork :=
    absurd (hrun.symm.trans (hsame.trans hnone)) (by simp)
  have hcall {hd : Handler} {ev : EpollEvent} {k : Main} (hmain : w.sh.main ≠ .eventRet)
      (hk : k ≠ .eventRet) (hw' : w.callHandler hd ev k = w') : w.sh.main = .eventWork := by
    subst hw'
    cases hd with
    | co y =>
        have hqueue : (w.callHandler (.co y) ev k).sh.hub.queue = w.sh.hub.queue := by
          simp only [callHandler, asyncResume]
          split
          · rfl
          · split
            · rfl
            · simp [Hub.queue, Shared.hub, hmain, hk]
        have hlen := congrArg List.length hq
        rw [hqueue, List.length_cons] at hlen
        omega
    | accept sfd =>
        apply hidle
        rw [callHandler]
        split <;> rfl
    | dns => exact hidle rfl
  unfold mainStep at h
  split at h <;> rename_i hmain
  · exact hmain
  · rw [Option.some.injEq] at h
    exact hidle (h ▸ rfl)
  · unfold epollWait at h
    split at h
    · split at h
      · rw [Option.some.injEq] at h
        exact hidle (h ▸ rfl)
      · split at h
        · rw [Option.some.injEq] at h
          exact hidle (h ▸ rfl)
        · exact absurd h (by simp)
    · rw [Option.some.injEq] at h
      exact hidle (h ▸ rfl)
    · exact absurd h (by simp)
  · rename_i t
    rw [Option.some.injEq] at h
    exact hidle (h ▸ w.nextTodo_callCxt t)
  · split at h <;> rw [Option.some.injEq] at h
    · exact hidle (h ▸ rfl)
    · exact hcall (by simp [hmain]) (by simp) h
  · split at h <;> rw [Option.some.injEq] at h
    · exact hidle (h ▸ rfl)
    · exact hcall (by simp [hmain]) (by simp) h
  · split at h
    · rw [Option.some.injEq] at h
      exact hidle (h ▸ rfl)
    · split at h
      · exact absurd h (by simp)
      · rw [Option.some.injEq] at h
        exact hidle (h ▸ rfl)
    · exact absurd h (by simp)
  · split at h <;> rw [Option.some.injEq] at h <;> exact hidle (h ▸ rfl)
  · exact absurd h (by simp)

/-- The request coroutine comes to its last wait by its own step. -/
theorem req_final_running {w w' : World} (hs : Step w.notify w'.notify) {c : ClientId}
    {p p' : Peer} (hp : w.notify.peers c = some p) (hp' : w'.notify.peers c = some p')
    (hdone : p.req = .done) (hfinal : p'.req = .final) : w.sh.callCxt = some ⟨c, .req⟩ := by
  cases peer_case hs hp' with
  | same hq _ _ =>
      obtain rfl := Option.some.inj (hq.symm.trans hp)
      exact absurd (hdone.symm.trans hfinal) (by simp)
  | req _ hrun _ _ => exact hrun
  | rsp hq _ hr _ =>
      obtain rfl := Option.some.inj (hq.symm.trans hp)
      exact absurd (hdone.symm.trans (hr.req_eq.2.1.symm.trans hfinal)) (by simp)
  | @woken q ret side hq _ _ hres _ _ =>
      obtain rfl := Option.some.inj (hq.symm.trans hp)
      rw [hres] at hfinal
      cases side with
      | req => simp [Peer.resume, hdone] at hfinal
      | rsp =>
          rw [(resume_rsp_req _ ret).2.1, hdone] at hfinal
          exact absurd hfinal (by simp)
  | new _ hnew _ _ _ _ => simp [hnew, Peer.new] at hfinal

theorem heeded_of_shutdownOk {w w' : World} {ch : Choice} (hf : Farewell w.notify)
    (hok : w.shutdownOk ch = true) (h : w.step ch = some w') (hs : Step w.notify w'.notify) :
    Heeded w.notify w'.notify := by
  rw [World.shutdownOk, Bool.and_eq_true, Bool.and_eq_true] at hok
  obtain ⟨⟨-, hco⟩, hfarewell⟩ := hok
  refine ⟨?_, ?_⟩
  · intro c p p' hp hp' hdone hfinal hfin
    have hrun := req_final_running hs hp hp' hdone hfinal
    obtain ⟨cl, hcl, rfl⟩ := peers_eq hp
    rcases World.coOk_cases hco h hrun hcl with ⟨eid, hd⟩ | ⟨hg, -⟩
    · have heq : w'.notify.peers c = w.notify.peers c := by
        show (w'.clients c).map _ = (w.clients c).map _
        rw [World.dnsDone_clients hd]
      obtain rfl := Option.some.inj (hp'.symm.trans (heq.trans hp))
      exact absurd (hdone.symm.trans hfinal) (by simp)
    · have hdone' : cl.req.pos = .done := hdone
      have hfin' : cl.rsp.pos = .finished := hfin
      simp [Local.heeds, hdone', hfin'] at hg
  · intro c p fd d hp hnone hrun' hq hwait
    obtain ⟨cl, hcl, rfl⟩ := peers_eq hp
    have hnone₀ : w.sh.callCxt = none := hnone
    have hdns (eid : EventId) : ch ≠ .dnsDone eid := by
      rintro rfl
      have heq := World.dnsDone_callCxt (World.step_dnsDone h)
      exact absurd (hrun'.symm.trans (heq.trans hnone)) (by simp)
    rcases World.step_cases h with ⟨eid, hd⟩ | ⟨-, hmain⟩ | ⟨x, cl', l', hx, -, -, -⟩
    · have heq : w'.sh.callCxt = w.sh.callCxt := World.dnsDone_callCxt hd
      exact absurd (hrun'.symm.trans (heq.trans hnone)) (by simp)
    · have hwork := World.mainStep_dispatch hnone₀ hmain hrun' hq
      have hqueue : w.sh.ev.queue = (cl.cxt.evRsp, false) :: w'.notify.hub.queue := by
        have hev : w.sh.hub.queue = w.sh.ev.queue := by simp [Hub.queue, Shared.hub, hwork]
        exact hev.symm.trans hq
      have hexit : w.notify.hub.exited = false := by
        simp [World.notify, Shared.hub, hwork]
      have hfin : cl.peer.rsp ≠ .finished := by
        intro hpc
        have hpark : cl.peer.RspParked :=
          hf.matched.park.parked ⟨c, .rsp⟩ cl.peer (by simp [hnone]) hp
        simp only [Peer.RspParked, hpc] at hpark
        exact absurd (hpark.symm.trans hwait) (by simp)
      have hh : w.sh.ev.handlers cl.cxt.evRsp = some ⟨c, .rsp⟩ :=
        hf.matched.heard.rspHandler c cl.peer hp hexit hfin
      have hwait' : cl.rspWait = some (.io fd d) := hwait
      unfold World.farewellOk at hfarewell
      split at hfarewell
      · exact absurd rfl (hdns _)
      · simp [hwork, hqueue, hh, hcl, hwait', Wait.isIo] at hfarewell
    · exact absurd (hnone₀.symm.trans hx) (by simp)

theorem farewell_init : Farewell World.init.notify where
  matched := matched_init.req
  blocked := fun _ _ hp => absurd hp (by simp [World.notify, World.init])
  gone := fun _ _ hp => absurd hp (by simp [World.notify, World.init])
  begins := fun _ _ hp => absurd hp (by simp [World.notify, World.init])
  told := fun _ _ hp => absurd hp (by simp [World.notify, World.init])

/-- The shutdown of client `c` is stuck: nothing is left to be dispatched, the
    request coroutine is in its last wait, and the response coroutine has returned
    or sleeps. -/
def World.Deadlocked (w : World) (cl : Client) : Prop :=
  w.sh.ev.queue = [] ∧ cl.req.pos = .final ∧ (cl.rsp.pos = .finished ∨ cl.rsp.pos = .empty)

/-- No client is deadlocked in a run in which no farewell is lost. -/
theorem not_deadlocked {w : World} {c : ClientId} {cl : Client}
    (h : Run World.step (fun w ch => w.shutdownOk ch = true) World.init w)
    (hcl : w.clients c = some cl) : ¬w.Deadlocked cl := by
  have hfarewell : Farewell w.notify := by
    refine notify_invariant farewell_init (fun w w' ch hI hok hstep hs => ?_) h
    have hids : w.idsLeft = true := by
      rw [World.shutdownOk, Bool.and_eq_true, Bool.and_eq_true] at hok
      exact hok.1.1
    exact farewell_step hI (noWrap_of_idsLeft hids) (heeded_of_shutdownOk hI hok hstep hs) hs
  have hp : w.notify.peers c = some cl.peer := by simp [World.notify, hcl]
  rintro ⟨hqueue, hfinal, hrsp⟩
  have hnone (e : EventId × Bool) : e ∉ w.notify.hub.queue := by
    intro he
    have hmem : e ∈ w.sh.ev.queue := Hub.mem_ev_queue he
    rw [hqueue] at hmem
    exact absurd hmem List.not_mem_nil
  rcases hrsp with hrsp | hrsp
  · obtain ⟨-, d, hmem⟩ := hfarewell.gone c cl.peer hp hfinal hrsp
    exact hnone _ hmem
  · have hrsp' : cl.peer.rsp = .empty := hrsp
    obtain ⟨-, hmem⟩ := hfarewell.told c cl.peer hp hfinal (by simp [hrsp']) (by simp [hrsp'])
    exact hnone _ hmem

/-- After one exchange the client is not deadlocked. -/
theorem oneExchange_not_deadlocked : ∃ (w : World) (cl : Client),
    Run World.step (fun w ch => w.shutdownOk ch = true) World.init w ∧ w.clients 0 = some cl ∧
      cl.rsp.pos = .empty ∧ ¬w.Deadlocked cl := by
  have hd : (World.driveInit World.shutdownOk 500 (oneRequest ++ oneResponse)).any (fun w =>
      (w.clients 0).any fun cl => cl.rsp.pos = .empty) = true := by
    decide +kernel
  obtain ⟨w, hr, hp⟩ := exists_run_of_drive hd
  obtain ⟨cl, hcl, hp⟩ := (Option.any_eq_true _ _).mp hp
  exact ⟨w, cl, hr, hcl, of_decide_eq_true hp, not_deadlocked hr hcl⟩

/-- The response coroutine waits for the answer to the first request when the
    connection for the second is refused: it takes no notice of the farewell, and sleeps
    once it has relayed the answer. -/
theorem deadlock_reachable : ∃ (w : World) (cl : Client), w.Reachable ∧ w.clients 0 = some cl ∧
    w.Deadlocked cl := by
  have hd : (World.driveInit (fun _ _ => true) 500
      (oneRequest ++ refusedRequest ++ [.sys .again] ++ oneResponse)).any (fun w =>
        (w.clients 0).any fun cl =>
          w.sh.ev.queue = [] && cl.req.pos = .final && cl.rsp.pos = .empty) = true := by
    decide +kernel
  obtain ⟨w, hr, hp⟩ := World.reachable_of_drive hd
  obtain ⟨cl, hcl, hp⟩ := (Option.any_eq_true _ _).mp hp
  simp only [Bool.and_eq_true, decide_eq_true_eq] at hp
  exact ⟨w, cl, hr, hcl, hp.1.1, hp.1.2, .inr hp.2⟩

-- ============================================================================
-- Wake-ups
-- ============================================================================

/-- The response coroutine is at a wait for I/O. -/
def Client.rspYields (cl : Client) : Bool :=
  match cl.rsp with
  | .serve _ _ (.call (.yield _ _) _) => true
  | _ => false

namespace Local

/-- Request `j` is a CONNECT request. -/
def isConnect (l : Local) (j : ReqIx) : Bool := (l.cl.mem.reqs j).kind = .connect

/-- The request coroutine is about to post an event for the response coroutine: the
    notice of a request, or its farewell. -/
def notifies (l : Local) (ch : Choice) : Bool :=
  match l.cl.req with
  | .io (.forward _ _ _) (.ret ret) => ret = 0 && l.cl.cxt.rspBlocked
  | .addrs j (rp :: _) =>
      l.isConnect j && l.sh.mainStat = .running && rp.family ≠ .other &&
        (l.cl.cxt.poolFind ⟨rp.family, htons (l.cl.mem.reqs j).req.port, rp.addr⟩).any fun s =>
          (l.cl.mem.conns s).stat ≠ .closed
  | .getConn j _ _ =>
      match ch with
      | .connect (.connected _ _) => l.isConnect j
      | .connect (.inProgress _ ok) => !ok && l.isConnect j
      | _ => false
  | .connected j _ _ ret => ret ≠ -1 && l.isConnect j
  | .done => !l.cl.cxt.rspWillExited
  | _ => false

/-- The coroutine about to make a step does not get a notice to a response
    coroutine that waits for I/O: the response coroutine does not begin to wait for
    I/O with an event of its own in the queue, and the request coroutine does not
    post one while it waits. -/
def undisturbed (side : Side) (l : Local) (ch : Choice) : Bool :=
  match side with
  | .req => !(l.notifies ch && l.cl.rspWait.any Wait.isIo)
  | .rsp => !(l.cl.rspYields && l.sh.hub.queue.any (·.1 = l.cl.cxt.evRsp))

variable {l l' : Local}

theorem appendEntry_ev (l : Local) (j : ReqIx) (s : ConnIx) :
    (l.appendEntry j s).sh.ev = l.sh.ev := by
  simp [appendEntry]

theorem gotServer_queue (l : Local) (j : ReqIx) (s : ConnIx) :
    (l.gotServer j s).sh.ev.queue = l.sh.ev.queue ∨ l.isConnect j = true := by
  unfold gotServer
  split
  · exact .inl rfl
  · rename_i hkind
    exact .inr (by simp [isConnect, hkind])

theorem increfConn_reqs (l : Local) (i : ConnIx) :
    (l.increfConn i).cl.mem.reqs = l.cl.mem.reqs := by
  unfold increfConn
  split <;> rfl

theorem gotNewConn_queue (l : Local) (j : ReqIx) (i : ConnIx) :
    (l.gotNewConn j i).sh.ev.queue = l.sh.ev.queue ∨ l.isConnect j = true := by
  have hopen : ((l.connInit i).cl.mem.conns i).stat = .free := by
    simp [connInit, Mem.setConn]
  unfold gotNewConn
  dsimp only
  rw [if_neg (by simp [hopen])]
  refine (gotServer_queue _ j i).imp (fun h => h.trans (by simp)) fun h => ?_
  simpa [isConnect, increfConn_reqs, connInit, Mem.setConn] using h

theorem tryAddr_queue {j : ReqIx} {rps : List AddrInfo} (hpc : l.cl.req = .addrs j rps)
    (ch : Choice) : (l.tryAddr j rps).sh.ev.queue = l.sh.ev.queue ∨ l.notifies ch = true := by
  cases rps with
  | nil => exact .inl rfl
  | cons rp rps =>
      rw [tryAddr]
      split
      · exact .inl rfl
      · rename_i hstat
        split
        · exact .inl rfl
        · rename_i hfam
          dsimp only
          split
          · exact .inl rfl
          · rename_i s hfind
            split
            · exact .inl (by simp)
            · rename_i hopen
              refine (gotServer_queue _ j s).imp (fun h => h.trans (by simp)) fun h => ?_
              have hrunning : l.sh.mainStat = .running := by
                cases hm : l.sh.mainStat with
                | running => rfl
                | exiting => exact absurd hm hstat
              have hconnect : l.isConnect j = true := by
                simpa [isConnect, increfConn_reqs] using h
              simp [notifies, hpc, hconnect, hrunning, hfam, hfind, hopen]

theorem reqRet_queue (l : Local) {α : Type} (k : ReqK α) (a : α) (hpc : l.cl.req = .io k (.ret a))
    (ch : Choice) : (l.reqRet k a).sh.ev.queue = l.sh.ev.queue ∨ l.notifies ch = true := by
  cases k with
  | fetch =>
      left
      obtain ⟨ret, data⟩ := a
      show (l.reqFetched ret data).sh.ev.queue = _
      unfold reqFetched
      split
      · rfl
      · split
        · rfl
        · dsimp only
          split <;> simp
  | badRequest req => cases req <;> exact .inl (by simp [reqRet])
  | badGateway j server => cases server <;> exact .inl (by simp [reqRet, reqFailed])
  | forward j s head =>
      show (l.reqForwarded j s a).sh.ev.queue = _ ∨ _
      unfold reqForwarded
      split
      · rename_i hret
        by_cases hb : l.cl.cxt.rspBlocked = true
        · exact .inr (by simp [notifies, hpc, hret, hb])
        · left
          have hb' : (l.appendEntry j s).cl.cxt.rspBlocked = false := by
            simpa [appendEntry] using hb
          simp [hb', appendEntry_ev]
      · exact .inl (by simp)
  | body j s =>
      left
      show (if a ≠ 0 then _ else _ : Local).sh.ev.queue = _
      split <;> simp
  | ok200 j s =>
      left
      show (if a ≠ 0 then _ else _ : Local).sh.ev.queue = _
      split <;> simp
  | tunnel j s => exact .inl (by simp [reqRet, reqFailed])

/-- Only a step that `notifies` names adds to the queue. -/
theorem reqStep_queue {ch : Choice} (h : reqStep l ch = some l') :
    l'.sh.ev.queue = l.sh.ev.queue ∨ l.notifies ch = true := by
  unfold reqStep at h
  split at h <;> rename_i hpc
  · left
    split at h <;> rw [Option.some.injEq] at h <;> exact h ▸ rfl
  · rw [Option.some.injEq] at h
    exact h ▸ l.reqRet_queue _ _ hpc ch
  · obtain ⟨⟨l₁, p'⟩, hio, rfl⟩ := Option.map_eq_some_iff.mp h
    left
    rcases ioStep_cases hio with hq | ⟨r, d, _, -, -, rfl⟩
    · simp [hq.ev]
    · rfl
  · left
    unfold dnsLookup at h
    dsimp only at h
    split at h
    · rw [Option.some.injEq] at h
      exact h ▸ rfl
    · split at h
      · split at h <;> rw [Option.some.injEq] at h <;> exact h ▸ rfl
      · exact absurd h (by simp)
  · left
    split at h
    · rename_i res
      rw [Option.some.injEq] at h
      subst h
      cases res <;> rfl
    · exact absurd h (by simp)
  · rw [Option.some.injEq] at h
    exact h ▸ tryAddr_queue hpc ch
  · split at h
    · rename_i res
      cases res with
      | fail =>
          simp only [getConn, Option.some.injEq] at h
          exact .inl (h ▸ rfl)
      | connected fd ok =>
          simp only [getConn] at h
          split at h
          · exact absurd h (by simp)
          · rw [Option.some.injEq] at h
            subst h
            refine (gotNewConn_queue _ _ _).imp (fun h => h.trans (by simp)) fun h => ?_
            simpa [notifies, hpc, isConnect, newConn] using h
      | inProgress fd ok =>
          simp only [getConn] at h
          split at h
          · exact absurd h (by simp)
          · split at h <;> rename_i hok <;> rw [Option.some.injEq] at h <;> subst h
            · exact .inl (by simp [park])
            · refine (gotNewConn_queue _ _ _).imp (fun h => h.trans (by simp)) fun h => ?_
              simpa [notifies, hpc, hok, isConnect, newConn] using h
    · exact absurd h (by simp)
  · rename_i j i rps ret
    rw [Option.some.injEq] at h
    subst h
    unfold connConnected
    split
    · exact .inl (by simp)
    · rename_i hret
      exact (l.gotNewConn_queue j i).imp_right fun h => by simp [notifies, hpc, h, hret]
  · rw [Option.some.injEq] at h
    subst h
    unfold reqDone
    dsimp only
    split
    · exact .inl rfl
    · rename_i hexit
      exact .inr (by simpa [notifies, hpc] using hexit)
  · rw [Option.some.injEq] at h
    subst h
    exact .inl (by simp [reqCleanup, leave])
  all_goals exact absurd h (by simp)

/-- The response coroutine begins to wait for I/O only where its program does. -/
theorem rspStep_blocks {ch : Choice} (h : rspStep l ch = some l') (hnone : l.cl.rspWait = none)
    {fd : Fd} {d : Dir} (hwait : l'.cl.rspWait = some (.io fd d)) : l.cl.rspYields = true := by
  have hkept (heq : l'.cl.rspWait = l.cl.rspWait) : l.cl.rspYields = true := by
    rw [heq, hnone] at hwait
    exact absurd hwait (by simp)
  unfold rspStep at h
  split at h
  · rw [Option.some.injEq] at h
    exact hkept (h ▸ rfl)
  · split at h <;> rename_i hpc
    · rw [Option.some.injEq] at h
      subst h
      unfold rspLoop at hwait hkept
      split at hwait
      · exact absurd (hnone.symm.trans hwait) (by simp)
      · split at hwait
        · exact absurd hwait (by simp [park, Client.setWait])
        · split at hwait
          · exact absurd (hnone.symm.trans hwait) (by simp)
          · split at hwait
            · exact absurd (hnone.symm.trans hwait) (by simp)
            · split at hwait <;> exact absurd (hnone.symm.trans hwait) (by simp)
    · rename_i n e ret _
      rw [Option.some.injEq] at h
      refine hkept ?_
      subst h
      unfold rspServed
      dsimp only
      split
      · rfl
      · split
        · split
          · rfl
          · simp [rspPop]
        · split
          · rfl
          · simp [rspPop]
    · obtain ⟨⟨l₁, p'⟩, hio, rfl⟩ := Option.map_eq_some_iff.mp h
      rcases ioStep_cases hio with hq | ⟨r, dir, k, rfl, -, -⟩
      · exact hkept hq.rspWait
      · simp [Client.rspYields, hpc]
    · rw [Option.some.injEq] at h
      subst h
      refine hkept ?_
      cases hb : l.cl.cxt.reqBlocked <;> simp [rspExit, leave, hb]
    all_goals exact absurd h (by simp)

end Local

def World.wakeupsOk (w : World) (ch : Choice) : Bool := w.idsLeft && w.coOk Local.undisturbed ch

theorem undisturbed_of_wakeupsOk {w w' : World} {ch : Choice} (hm : Matched w.notify)
    (hok : w.wakeupsOk ch = true) (h : w.step ch = some w') :
    Undisturbed w.notify w'.notify := by
  have hco : w.coOk Local.undisturbed ch = true := (Bool.and_eq_true _ _ ▸ hok).2
  refine ⟨?_, ?_⟩
  · intro c p p' fd d b hrun hp hp' hwait
    have hnone : p.rspWait = none := hm.park.running ⟨c, .rsp⟩ p hrun hp
    obtain ⟨cl, hcl, rfl⟩ := peers_eq hp
    obtain ⟨cl', hcl', rfl⟩ := peers_eq hp'
    rcases World.coOk_cases hco h hrun hcl with ⟨eid, hd⟩ | ⟨hg, l', hl', hw'⟩
    · rw [World.dnsDone_clients hd, hcl, Option.some.injEq] at hcl'
      rw [← hcl', hnone] at hwait
      exact absurd hwait (by simp)
    · have hl'cl : w'.clients c = some l'.cl := by simp [hw', World.setClient]
      obtain rfl := Option.some.inj (hl'cl.symm.trans hcl')
      have hyields : cl.rspYields = true := Local.rspStep_blocks hl' hnone hwait
      simp only [Local.undisturbed, hyields, Bool.true_and, Bool.not_eq_true', List.any_eq_false,
        decide_eq_true_eq] at hg
      exact fun hmem => hg _ hmem rfl
  · intro c p fd d b hrun hp hwait hmem
    obtain ⟨cl, hcl, rfl⟩ := peers_eq hp
    rcases World.coOk_cases hco h hrun hcl with ⟨eid, hd⟩ | ⟨hg, l', hl', hw'⟩
    · unfold World.dnsDone at hd
      split at hd
      · rw [Option.some.injEq] at hd
        subst hd
        exact hmem
      · exact absurd hd (by simp)
    · have hio : cl.rspWait.any Wait.isIo = true := by
        have hwait' : cl.rspWait = some (.io fd d) := hwait
        simp [hwait', Wait.isIo]
      have hqueue : l'.sh.ev.queue = w.sh.ev.queue := by
        rcases Local.reqStep_queue hl' with heq | hn
        · exact heq
        · simp [Local.undisturbed, hn, hio] at hg
      have hmain : l'.sh.main = w.sh.main := (reqStep_refines hl').main
      have heq : w'.notify.hub.queue = w.notify.hub.queue := by
        simp [hw', World.notify, Hub.queue, Shared.hub, hqueue, hmain]
      rwa [heq] at hmem

/-- The wait of one side. -/
def Client.wait (cl : Client) : Side → Option Wait
  | .req => cl.reqWait
  | .rsp => cl.rspWait

/-- Coroutine `x` is live and waits for exactly `wt`. -/
def World.Awaits (w : World) (x : Co) (wt : Wait) : Prop :=
  ∃ cl, w.clients x.client = some cl ∧ cl.isFinished x.side = false ∧ cl.wait x.side = some wt

/-- The coroutine the main loop is about to resume waits for what it is resumed
    by: the event at the head of the queue, or the descriptor of a read or write
    handler. -/
structure World.WakesMatch (w : World) : Prop where
  event : ∀ eid d q x, w.sh.callCxt = none → w.sh.main = .eventWork →
    w.sh.ev.queue = (eid, d) :: q → w.sh.ev.handlers eid = some x → w.Awaits x (.event eid)
  read : ∀ ev nh t x, w.sh.callCxt = none → w.sh.main = .callRead ev nh t →
    nh.rd = some (.co x) → w.Awaits x (.io ev.fd .read)
  write : ∀ ev nh t x, w.sh.callCxt = none → w.sh.main = .callWrite ev nh t →
    nh.wr = some (.co x) → w.Awaits x (.io ev.fd .write)

/-- A coroutine that waits has not returned. -/
theorem awaits_of_waits {w : World} (hm : Matched w.notify) (hrun : w.sh.callCxt = none) {x : Co}
    {wt : Wait} (h : Waits w.notify x wt) : w.Awaits x wt := by
  obtain ⟨c, side⟩ := x
  obtain ⟨p, hp, hwait⟩ := h
  have hpark := hm.park.parked ⟨c, side⟩ p (by simp [World.notify, Shared.hub, hrun]) hp
  obtain ⟨cl, hcl, rfl⟩ := peers_eq hp
  refine ⟨cl, hcl, ?_, ?_⟩
  · rw [← World.peer_isFinished, ← Bool.not_eq_true]
    intro hfin
    cases side with
    | req =>
        have hreq : cl.peer.req = .finished := by simpa [Peer.isFinished] using hfin
        simp only [Peer.Parked, Peer.ReqParked, hreq] at hpark
        exact absurd (hpark.symm.trans hwait) (by simp)
    | rsp =>
        have hrsp : cl.peer.rsp = .finished := by simpa [Peer.isFinished] using hfin
        simp only [Peer.Parked, Peer.RspParked, hrsp] at hpark
        exact absurd (hpark.symm.trans hwait) (by simp)
  · cases side <;> exact hwait

/-- Wake-ups match waits in runs in which no notice reaches a response coroutine
    that waits for I/O. -/
theorem wakes_match {w : World}
    (h : Run World.step (fun w ch => w.wakeupsOk ch = true) World.init w) : w.WakesMatch := by
  have hm : Matched w.notify := by
    refine notify_invariant matched_init (fun w w' ch hI hok hstep hs => ?_) h
    have hids : w.idsLeft = true := (Bool.and_eq_true _ _ ▸ hok).1
    exact matched_step hI (noWrap_of_idsLeft hids) (undisturbed_of_wakeupsOk hI hok hstep) hs
  refine ⟨?_, ?_, ?_⟩
  · intro eid d q x hrun hmain hqueue hh
    have hin : w.notify.hub.inEvent = false := by simp [World.notify, Shared.hub, hmain]
    exact awaits_of_waits hm hrun (hm.eventOk hrun hin eid d q x hqueue hh)
  · intro ev nh t x hrun hmain hrd
    refine awaits_of_waits hm hrun (hm.io.pend ev.fd .read x ?_)
    simp [World.notify, Shared.hub, hmain, Main.calls, PullEnt.co, hrd]
  · intro ev nh t x hrun hmain hwr
    refine awaits_of_waits hm hrun (hm.io.pend ev.fd .write x ?_)
    simp [World.notify, Shared.hub, hmain, Main.calls, PullEnt.co, hwr]

/-- In one exchange the response coroutine is called for the descriptor it waits
    for. -/
theorem oneExchange_wakes_match : ∃ w : World,
    Run World.step (fun w ch => w.wakeupsOk ch = true) World.init w ∧
      w.sh.main.calls = [(7, .read, ⟨0, .rsp⟩)] ∧ w.WakesMatch := by
  have hd : (World.driveInit World.wakeupsOk 149 (oneRequest ++ oneResponse)).any (fun w =>
      w.sh.main.calls = [(7, .read, ⟨0, .rsp⟩)]) = true := by
    decide +kernel
  obtain ⟨w, hr, hp⟩ := exists_run_of_drive hd
  exact ⟨w, hr, of_decide_eq_true hp, wakes_match hr⟩

/-- The farewell of the request coroutine wakes a response coroutine that waits for
    the answer to the first request. -/
theorem wakes_mismatch_reachable : ∃ w : World, w.Reachable ∧ ¬w.WakesMatch := by
  have hd : (World.driveInit (fun _ _ => true) 261 (oneRequest ++ refusedRequest)).any (fun w =>
      w.sh.callCxt = none && w.sh.main = .eventWork && w.sh.ev.queue = [(1, false)] &&
        w.sh.ev.handlers 1 = some ⟨0, .rsp⟩ &&
        (w.clients 0).any fun cl => cl.rspWait = some (.io 7 .read)) = true := by
    decide +kernel
  obtain ⟨w, hr, hp⟩ := World.reachable_of_drive hd
  simp only [Bool.and_eq_true, decide_eq_true_eq, Option.any_eq_true] at hp
  obtain ⟨⟨⟨⟨hrun, hmain⟩, hqueue⟩, hh⟩, cl, hcl, hwait⟩ := hp
  refine ⟨w, hr, fun hm => ?_⟩
  obtain ⟨cl', hcl', -, hwait'⟩ := hm.event 1 false [] ⟨0, .rsp⟩ hrun hmain hqueue hh
  obtain rfl := Option.some.inj (hcl.symm.trans hcl')
  exact absurd (hwait.symm.trans hwait') (by simp)

end HttpProxy
