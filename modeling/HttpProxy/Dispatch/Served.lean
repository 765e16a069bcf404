/-
  HttpProxy.Dispatch.Served

  The whole proxy runs on the modules of HttpProxy.Dispatch.  A state of core/net_pull.c in
  HttpProxy.System is served where `PullModule` reaches, by calls and batches, a state that
  shows it, and one of core/event.c where `EventModule` does.  `Shared.At` says where both
  loops are when the main loop of the proxy is at a given point; `World.served` that until
  proxy_done the proxy is served in every state it reaches.
-/

import HttpProxy.System.Calls
import HttpProxy.Dispatch.Connect
import HttpProxy.Dispatch.EventQueue
import HttpProxy.Dispatch.Layers

namespace HttpProxy

open Lib Relation

/-- An event as HttpProxy.System has it. -/
def PullEvent.event (e : PullEvent) : EpollEvent := ⟨e.fd, e.err⟩

/-- net_pull_work reaches `pc` with this table and these descriptors. -/
def Net.Served (net : Net) (pc : PullPc PullFn) : Prop :=
  ∃ m : PullModule PullFn, m.Reachable ∧ m.Shows net ∧ m.pc = pc

/-- event_work reaches `pc` with this queue and these handlers. -/
def Events.Served (ev : Events) (pc : EventPc) : Prop :=
  ∃ m : EventModule Co Bool, m.Reachable ∧ m.Shows ev ∧ m.pc = pc

-- ============================================================================
-- core/net_pull.c
-- ============================================================================

namespace PullModule

variable {m : PullModule PullFn} {net net' : Net}

/-- A call that a handler makes. -/
theorem Shows.call (h : m.Shows net) (hreach : m.Reachable) (hfree : m.pc.free = true)
    (hcall : NetCall net net') :
    ∃ m' : PullModule PullFn, m'.Reachable ∧ m'.Shows net' ∧ m'.pc = m.pc := by
  have hstep {m' : PullModule PullFn} (op : PullOp PullFn) (hs : m.step op = some m') :
      m'.Reachable := hreach.step trivial hs
  cases hcall with
  | @openAdd fd o ok err hfd =>
      have hnone : (m.fds fd).isSome = false := by
        rw [← h.fds, hfd]
        rfl
      have hopened : (m.sysOpen fd).Reachable :=
        hstep (.sysOpen fd) (by simp [step, perform, hfree, hnone])
      have hunwatched : net.epoll fd = false := by
        rw [h.epoll, ← Bool.not_eq_true]
        intro hwatched
        rw [watches_run watches_init hreach fd hwatched] at hnone
        exact absurd hnone (by simp)
      refine ⟨_, hopened.step (a := .add fd (err.map .connErr) ok) trivial ?_,
        (h.sysOpen fd o).add err (by simp [Net.sysOpen]) hunwatched, ?_⟩
      · have hfree' : (m.sysOpen fd).pc.free = true := hfree
        simp [step, perform, hfree']
      · rw [netPullAdd]
        split <;> rfl
  | setHandler fd d f =>
      refine ⟨_, hstep (.setHandler fd (d = .read) (d = .write) (f.map .io)) ?_,
        h.setHandler fd d f, ?_⟩
      · simp [step, perform, hfree]
      · rw [netPullSetHandler]
        split <;> rfl
  | del fd =>
      refine ⟨_, hstep (.del fd) ?_, h.del fd, ?_⟩
      · simp [step, perform, hfree]
      · rw [netPullDel]
        split <;> rfl
  | close fd =>
      refine ⟨_, hstep (.sysClose fd) ?_, h.sysClose fd, rfl⟩
      simp [step, perform, hfree]
  | act c i kind fd => exact ⟨m, hreach, ⟨h.table, h.fdCnt, h.epoll, h.fds⟩, rfl⟩

end PullModule

namespace Net.Served

variable {net net' : Net} {pc : PullPc PullFn} {k : PullKind} {ev : PullEvent}
  {nh : PullHandlers PullFn} {evs : List PullEvent}

/-- Handlers, and the code between two batches, may make any calls. -/
theorem calls (h : net.Served pc) (hfree : pc.free = true) (hcalls : NetCalls net net') :
    net'.Served pc := by
  induction hcalls with
  | refl => exact h
  | tail _ hcall ih =>
      obtain ⟨m, hreach, hshows, rfl⟩ := ih
      exact hshows.call hreach hfree hcall

/-- The next thing that net_pull_work does, when it leaves the table alone. -/
theorem step {pc' : PullPc PullFn} (h : net.Served pc)
    (hwork : ∀ m : PullModule PullFn, m.pc = pc →
      ∃ calls, m.work = some { m with pc := pc', calls }) : net.Served pc' := by
  obtain ⟨m, hreach, hshows, hpc⟩ := h
  obtain ⟨calls, hs⟩ := hwork m hpc
  exact ⟨_, hreach.step (a := .next) trivial hs, hshows.congr rfl rfl rfl rfl, rfl⟩

/-- `epoll_wait` returns a batch. -/
theorem wait {batch : List EpollEvent} (h : net.Served .outside) (hcnt : net.fdCnt ≠ 0)
    (hall : ∀ e ∈ batch, net.epoll e.fd = true) :
    ∃ evs, batch = evs.map PullEvent.event ∧ net.Served (.next evs) := by
  obtain ⟨m, hreach, hshows, hpc⟩ := h
  have hwatched : ∀ e ∈ batch.map (fun e => (e.fd, e.err)), m.epoll e.1 = true := by
    intro x hx
    obtain ⟨e, he, rfl⟩ := List.mem_map.mp hx
    rw [← hshows.epoll]
    exact hall e he
  have hs : m.step (.wait (batch.map fun e => (e.fd, e.err))) = some { m with
      pc := .next ((batch.map fun e => (e.fd, e.err)).map fun e => ⟨e.1, e.2, m.fds e.1⟩) } := by
    rw [PullModule.step, hpc]
    exact if_pos ⟨hshows.fdCnt ▸ hcnt, hwatched⟩
  refine ⟨_, ?_, _, hreach.step trivial hs, hshows.congr rfl rfl rfl rfl, rfl⟩
  rw [List.map_map, List.map_map]
  exact (List.map_id batch).symm

/-- The batch is through. -/
theorem done (h : net.Served (.next [])) : net.Served .outside := by
  apply h.step
  intro m hpc
  refine ⟨m.calls, ?_⟩
  rw [PullModule.work, hpc]
  rfl

/-- No handlers are found for an event. -/
theorem skip (h : net.Served (.next (ev :: evs))) (hfind : net.pullFind ev.fd = none) :
    net.Served (.next evs) := by
  obtain ⟨m, hreach, hshows, hpc⟩ := h
  have hs : m.step .next = some (m.fetch (ev :: evs)) := by
    rw [PullModule.step, PullModule.work, hpc]
  have hnext := hreach.step trivial hs
  rw [hshows.fetch_none hfind] at hnext
  exact ⟨_, hnext, hshows.congr rfl rfl rfl rfl, rfl⟩

/-- The handlers of an event are copied and cleared. -/
theorem take {nh : PullEnt} (h : net.Served (.next (ev :: evs)))
    (hfind : net.pullFind ev.fd = some nh) : ∃ e, e.fns = nh.fns ∧
      ((net.netPullSetHandler ev.fd .read none).netPullSetHandler ev.fd .write none).Served
        (.due .err ev e evs) := by
  obtain ⟨m, hreach, hshows, hpc⟩ := h
  have hs : m.step .next = some (m.fetch (ev :: evs)) := by
    rw [PullModule.step, PullModule.work, hpc]
  obtain ⟨e, hdue, hfns, hfetched⟩ := hshows.fetch_some hfind
  exact ⟨e, hfns, _, hreach.step trivial hs, hfetched, hdue⟩

/-- net_pull_work goes past a handler that it does not have. -/
theorem pass (h : net.Served (.due k ev nh evs)) (hnone : PullModule.chosen k ev nh = none) :
    net.Served (PullModule.after ev nh evs k) := by
  apply h.step
  intro m hpc
  refine ⟨m.calls, ?_⟩
  rw [PullModule.work, hpc]
  simp only [PullModule.call, hnone]

/-- net_pull_work calls a handler. -/
theorem call {r : Reg PullFn} (h : net.Served (.due k ev nh evs))
    (hsome : PullModule.chosen k ev nh = some r) : net.Served (.inside k ev nh evs) := by
  apply h.step
  intro m hpc
  refine ⟨m.calls ++ [⟨ev, k, r⟩], ?_⟩
  rw [PullModule.work, hpc]
  simp only [PullModule.call, hsome]

/-- The handler returns. -/
theorem back (h : net.Served (.inside k ev nh evs)) :
    net.Served (PullModule.after ev nh evs k) := by
  apply h.step
  intro m hpc
  refine ⟨m.calls, ?_⟩
  rw [PullModule.work, hpc]

/-- conn_err_handler only marks the connection, so the read handler is next in any case. -/
theorem errDone (h : net.Served (.due .err ev nh evs)) : net.Served (.due .read ev nh evs) := by
  cases hchosen : PullModule.chosen .err ev nh with
  | none => exact h.pass hchosen
  | some r => exact (h.call hchosen).back

end Net.Served

-- ============================================================================
-- core/event.c
-- ============================================================================

namespace Events.Served

variable {ev ev' : Events} {pc : EventPc}

/-- Handlers may post events, register and free ids. -/
theorem calls (h : ev.Served pc) (hpc : pc ≠ .loop) (hcalls : EventsCalls ev ev') :
    ev'.Served pc := by
  induction hcalls with
  | refl => exact h
  | tail _ hcall ih =>
      obtain ⟨m, hreach, hshows, rfl⟩ := ih
      have hstep {m' : EventModule Co Bool} {c : EventCall Co Bool} (hs : m.step c = some m') :
          m'.Reachable := hreach.step trivial hs
      cases hcall with
      | post eid d =>
          exact ⟨_, hstep (c := .post eid d) (if_neg hpc), hshows.post hpc eid d, rfl⟩
      | setHandler eid x =>
          exact ⟨_, hstep (c := .setHandler eid x) (if_neg hpc), hshows.setHandler eid x, rfl⟩
      | freeId eid =>
          exact ⟨_, hstep (c := .freeId eid) (if_neg hpc), hshows.freeId eid, rfl⟩
      | getId => exact ⟨m, hreach, ⟨hshows.handlers, hshows.queue⟩, rfl⟩

/-- The main loop calls event_work. -/
theorem work (h : ev.Served .outside) : ev.Served .loop := by
  obtain ⟨m, hreach, hshows, hpc⟩ := h
  exact ⟨_, hreach.step (a := .work) trivial (if_pos hpc), hshows.enter hpc, rfl⟩

/-- event_work at the head of its loop. -/
theorem loop (h : ev.Served .loop) :
    ev.queue = [] ∧ ev.Served .outside ∨ ∃ e es, ev.queue = e :: es ∧
      (ev.handlers e.1 = none ∧ Events.Served { ev with queue := es } .loop ∨
        ∃ x, ev.handlers e.1 = some x ∧ ev.Served .handler) := by
  obtain ⟨m, hreach, hshows, hpc⟩ := h
  obtain ⟨m', hs⟩ := hshows.next (by rw [hpc]; decide)
  have hreach' := hreach.step trivial hs
  simp only [EventModule.step, hpc] at hs
  rcases hshows.work hpc hs with ⟨hnil, hout, hshows'⟩ | ⟨e, es, hqueue, hcase⟩
  · exact .inl ⟨hnil, m', hreach', hshows', hout⟩
  · refine .inr ⟨e, es, hqueue, ?_⟩
    rcases hcase with ⟨hnone, hloop, hshows'⟩ | ⟨x, hsome, hhandler, hshows'⟩
    · exact .inl ⟨hnone, m', hreach', hshows', hloop⟩
    · exact .inr ⟨x, hsome, m', hreach', hshows', hhandler⟩

/-- The handler returns, and its event is gone. -/
theorem back (h : ev.Served .handler) :
    Events.Served { ev with queue := ev.queue.tail } .loop := by
  obtain ⟨m, hreach, hshows, hpc⟩ := h
  obtain ⟨m', hs⟩ := hshows.next (by rw [hpc]; decide)
  have hreach' := hreach.step trivial hs
  simp only [EventModule.step, hpc] at hs
  refine ⟨m', hreach', hshows.back hpc hs, ?_⟩
  rw [EventModule.eventReturn, Option.map_eq_some_iff] at hs
  obtain ⟨i, -, rfl⟩ := hs
  rfl

end Events.Served

-- ============================================================================
-- Where the main loop is
-- ============================================================================

/-- In the read or the write handler of an event, behind which the main loop goes on at `k`. -/
inductive PullPc.Inside : PullPc PullFn → Main → Prop where
  | read {ev : PullEvent} {nh : PullHandlers PullFn} {e : PullEnt} {evs : List PullEvent} :
      nh.fns = e.fns → Inside (.inside .read ev nh evs)
        (.callWrite ev.event e (.batch (evs.map PullEvent.event)))
  | write {ev : PullEvent} {nh : PullHandlers PullFn} {evs : List PullEvent} :
      Inside (.inside .write ev nh evs) (.next (.batch (evs.map PullEvent.event)))

/-- In a handler of either loop. -/
def Main.Behind (k : Main) (pc : PullPc PullFn) (epc : EventPc) : Prop :=
  pc.Inside k ∧ epc = .outside ∨ k = .eventRet ∧ pc = .outside ∧ epc = .handler

/-- Where net_pull_work and event_work are when the main loop itself runs. -/
inductive Main.Idle (q : Events) : Main → PullPc PullFn → EventPc → Prop where
  | eventWork : Idle q .eventWork .outside .loop
  | eventRet : Idle q .eventRet .outside .handler
  /-- behind an event that nobody wants, which event_work has not dropped yet -/
  | unwanted {e : EventId × Bool} {es : List (EventId × Bool)} : q.queue = e :: es →
      q.handlers e.1 = none → Idle q .eventRet .outside .loop
  | epollWait : Idle q .epollWait .outside .outside
  | next {evs : List PullEvent} :
      Idle q (.next (.batch (evs.map PullEvent.event))) (.next evs) .outside
  | callRead {ev : PullEvent} {nh : PullHandlers PullFn} {e : PullEnt} {evs : List PullEvent} :
      nh.fns = e.fns → Idle q (.callRead ev.event e (.batch (evs.map PullEvent.event)))
        (.due .read ev nh evs) .outside
  | callWrite {ev : PullEvent} {nh : PullHandlers PullFn} {e : PullEnt} {evs : List PullEvent} :
      nh.fns = e.fns → Idle q (.callWrite ev.event e (.batch (evs.map PullEvent.event)))
        (.due .write ev nh evs) .outside
  | accept {sfd : Fd} {k : Main} {pc : PullPc PullFn} : pc.Inside k →
      Idle q (.accept sfd k) pc .outside
  | dnsRead {k : Main} {pc : PullPc PullFn} : pc.Inside k → Idle q (.dnsRead k) pc .outside

/-- Where they are, whether a coroutine runs or not. -/
def Shared.At (sh : Shared) (pc : PullPc PullFn) (epc : EventPc) : Prop :=
  match sh.callCxt with
  | some _ => sh.main.Behind pc epc
  | none => sh.main.Idle sh.ev pc epc

/-- Both modules reach the state of the proxy. -/
def Shared.Served (sh : Shared) : Prop :=
  ∃ pc epc, sh.net.Served pc ∧ sh.ev.Served epc ∧ sh.At pc epc

section

variable {sh sh' : Shared} {pc : PullPc PullFn} {epc : EventPc} {k : Main}

theorem Shared.Served.idle (hcxt : sh.callCxt = none) (hnet : sh.net.Served pc)
    (hev : sh.ev.Served epc) (hidle : sh.main.Idle sh.ev pc epc) : sh.Served := by
  refine ⟨pc, epc, hnet, hev, ?_⟩
  rw [Shared.At, hcxt]
  exact hidle

theorem Shared.Served.at_idle (h : sh.Served) (hcxt : sh.callCxt = none) :
    ∃ pc epc, sh.net.Served pc ∧ sh.ev.Served epc ∧ sh.main.Idle sh.ev pc epc := by
  obtain ⟨pc, epc, hnet, hev, hat⟩ := h
  rw [Shared.At, hcxt] at hat
  exact ⟨pc, epc, hnet, hev, hat⟩

theorem PullPc.Inside.free (h : pc.Inside k) : pc.free = true := by
  cases h <;> rfl

/-- In a handler, calls may be made. -/
theorem Main.Behind.calls (h : k.Behind pc epc) (hnet : sh.net.Served pc)
    (hev : sh.ev.Served epc) (hcalls : sh.Calls sh') : sh'.net.Served pc ∧ sh'.ev.Served epc := by
  rcases h with ⟨hin, rfl⟩ | ⟨-, rfl, rfl⟩
  · exact ⟨hnet.calls hin.free hcalls.net, hev.calls (by decide) hcalls.ev⟩
  · exact ⟨hnet.calls rfl hcalls.net, hev.calls (by decide) hcalls.ev⟩

/-- A handler has returned. -/
theorem Main.Behind.served (h : sh.main.Behind pc epc) (hcxt : sh.callCxt = none)
    (hnet : sh.net.Served pc) (hev : sh.ev.Served epc) : sh.Served := by
  rcases h with ⟨hin, rfl⟩ | ⟨hret, rfl, rfl⟩
  · generalize hmain : sh.main = k at hin
    cases hin with
    | read hfns => exact .idle hcxt hnet.back hev (hmain ▸ .callWrite hfns)
    | write => exact .idle hcxt hnet.back hev (hmain ▸ .next)
  · exact .idle hcxt hnet hev (hret ▸ .eventRet)

/-- A step of the coroutine that runs. -/
theorem Shared.Served.co {x : Co} (h : sh.Served) (hcxt : sh.callCxt = some x)
    (hcalls : sh.Calls sh') : sh'.Served := by
  obtain ⟨pc, epc, hnet, hev, hat⟩ := h
  rw [Shared.At, hcxt] at hat
  obtain ⟨hnet', hev'⟩ := Main.Behind.calls hat hnet hev hcalls
  have hbehind : sh'.main.Behind pc epc := hcalls.main ▸ hat
  cases hcxt' : sh'.callCxt with
  | none => exact hbehind.served hcxt' hnet' hev'
  | some y =>
      refine ⟨pc, epc, hnet', hev', ?_⟩
      rw [Shared.At, hcxt']
      exact hbehind

/-- The loop of a handler ends. -/
theorem PullPc.Inside.served (h : pc.Inside sh.main) (hcxt : sh.callCxt = none)
    (hnet : sh.net.Served pc) (hev : sh.ev.Served .outside) : sh.Served :=
  Main.Behind.served (.inl ⟨h, rfl⟩) hcxt hnet hev

end

-- ============================================================================
-- Steps of the main loop
-- ============================================================================

namespace World

variable {w w' : World} {ch : Choice} {pc : PullPc PullFn} {epc : EventPc} {k : Main}

/-- A coroutine is resumed, or has been freed. -/
theorem served_asyncResume (x : Co) (ret : Int) (h : w.sh.Served) (hk : k.Behind pc epc)
    (hnet : w.sh.net.Served pc) (hev : w.sh.ev.Served epc) : (w.asyncResume x ret k).sh.Served := by
  unfold asyncResume
  split
  · exact h
  · split
    · exact h
    · exact ⟨pc, epc, hnet, hev, hk⟩

theorem served_eventWork (h : w.sh.Served) (hcxt : w.sh.callCxt = none)
    (hmain : w.sh.main = .eventWork) (hrun : w.sh.mainStat = .running) :
    w.eventWork.sh.Served := by
  obtain ⟨pc, epc, hnet, hev, hidle⟩ := h.at_idle hcxt
  rw [hmain] at hidle
  cases hidle
  rcases hev.loop with ⟨hnil, hout⟩ | ⟨e, es, hqueue, hcase⟩
  · simp only [eventWork, hnil, hrun]
    exact .idle hcxt hnet hout .epollWait
  · rcases hcase with ⟨hnone, -⟩ | ⟨x, hsome, hhandler⟩
    · simp only [eventWork, hqueue, hnone]
      exact .idle hcxt hnet hev (.unwanted hqueue hnone)
    · simp only [eventWork, hqueue, hsome]
      exact served_asyncResume x _ h (.inr ⟨rfl, rfl, rfl⟩) hnet hhandler

theorem served_eventRet (h : w.sh.Served) (hcxt : w.sh.callCxt = none)
    (hmain : w.sh.main = .eventRet) :
    ({ w with sh.ev.queue := w.sh.ev.queue.tail }.setMain .eventWork).sh.Served := by
  obtain ⟨pc, epc, hnet, hev, hidle⟩ := h.at_idle hcxt
  rw [hmain] at hidle
  cases hidle with
  | eventRet => exact .idle hcxt hnet hev.back .eventWork
  | unwanted hqueue hnone =>
      rcases hev.loop with ⟨hnil, -⟩ | ⟨e, es, hqueue', ⟨-, hdrop⟩ | ⟨x, hsome, -⟩⟩
      · exact absurd (hqueue.symm.trans hnil) (by simp)
      · have hloop : Events.Served { w.sh.ev with queue := w.sh.ev.queue.tail } .loop := by
          rw [hqueue']
          exact hdrop
        exact .idle hcxt hnet hloop .eventWork
      · obtain ⟨rfl, -⟩ := List.cons.inj (hqueue.symm.trans hqueue')
        exact absurd (hnone.symm.trans hsome) (by simp)

/-- `epoll_wait` returns. -/
theorem served_batch {evs : List EpollEvent} (h : w.sh.Served) (hcxt : w.sh.callCxt = none)
    (hmain : w.sh.main = .epollWait) (hcnt : w.sh.net.fdCnt ≠ 0)
    (hall : ∀ e ∈ evs, w.sh.net.epoll e.fd = true) :
    (w.setMain (.next (.batch evs))).sh.Served := by
  obtain ⟨pc, epc, hnet, hev, hidle⟩ := h.at_idle hcxt
  rw [hmain] at hidle
  cases hidle
  obtain ⟨evs', rfl, hnext⟩ := hnet.wait hcnt hall
  exact .idle hcxt hnext hev .next

theorem served_nextTodo {t : Todo} (h : w.sh.Served) (hcxt : w.sh.callCxt = none)
    (hmain : w.sh.main = .next t) : (w.nextTodo t).sh.Served := by
  obtain ⟨pc, epc, hnet, hev, hidle⟩ := h.at_idle hcxt
  rw [hmain] at hidle
  cases hidle with
  | @next evs =>
      cases evs with
      | nil => exact .idle hcxt hnet.done hev.work .eventWork
      | cons ev evs =>
          rw [List.map_cons, nextTodo]
          split
          · rename_i hfind
            exact .idle hcxt (hnet.skip hfind) hev .next
          · rename_i e hfind
            obtain ⟨nh, hfns, hdue⟩ := hnet.take hfind
            let todo : Todo := .batch (evs.map PullEvent.event)
            have hcall (w₁ : World) (hsh : ∃ fault, w₁.sh = { w.sh with
                net := (w.sh.net.netPullSetHandler ev.fd .read none).netPullSetHandler
                  ev.fd .write none
                fault }) : (w₁.setMain (.callRead ev.event e todo)).sh.Served := by
              obtain ⟨fault, hsh⟩ := hsh
              rw [setMain, hsh]
              exact .idle hcxt hdue.errDone hev (.callRead hfns)
            apply hcall
            dsimp only
            split
            · exact connErr_shared _ _
            · exact ⟨_, rfl⟩

/-- A handler of the table is called. -/
theorem served_callHandler (f : Handler) (ev : EpollEvent) (h : w.sh.Served)
    (hcxt : w.sh.callCxt = none) (hin : pc.Inside k) (hnet : w.sh.net.Served pc)
    (hev : w.sh.ev.Served .outside) : (w.callHandler f ev k).sh.Served := by
  have hcall {net : Net} (hc : NetCall w.sh.net net) : net.Served pc :=
    hnet.calls hin.free (.single hc)
  cases f with
  | co x => exact served_asyncResume x _ h (.inl ⟨hin, rfl⟩) hnet hev
  | accept sfd =>
      rw [callHandler]
      split
      · exact hin.served hcxt (hcall (.del sfd)) hev
      · have hkeep := hcall (.setHandler sfd .read (some (.accept sfd)))
        exact .idle hcxt hkeep hev (.accept hin)
  | dns =>
      have hkeep := hcall (.setHandler ev.fd .read (some .dns))
      exact .idle hcxt hkeep hev (.dnsRead hin)

/-- The handler that is called is the one the entry has. -/
theorem chosen_fns {e : PullEnt} {nh : PullHandlers PullFn} (ev : PullEvent) {d : PullKind}
    (hfns : nh.fns = e.fns) (hd : d ≠ .err) :
    (PullModule.chosen d ev nh).map (·.handler) = e.fns d := by
  rw [← hfns]
  cases d with
  | err => exact absurd rfl hd
  | read => rfl
  | write => rfl

theorem served_callRead {ev : EpollEvent} {e : PullEnt} {t : Todo} (h : w.sh.Served)
    (hcxt : w.sh.callCxt = none) (hmain : w.sh.main = .callRead ev e t) :
    (e.rd = none → (w.setMain (.callWrite ev e t)).sh.Served) ∧
      ∀ f, e.rd = some f → (w.callHandler f ev (.callWrite ev e t)).sh.Served := by
  obtain ⟨pc, epc, hnet, hev, hidle⟩ := h.at_idle hcxt
  rw [hmain] at hidle
  cases hidle with
  | @callRead ev' =>
      rename_i hfns
      have hchosen := chosen_fns ev' hfns (d := .read) (by decide)
      refine ⟨fun hrd => ?_, fun f hrd => ?_⟩ <;> rw [PullEnt.fns, hrd] at hchosen
      · exact .idle hcxt (hnet.pass (Option.map_eq_none_iff.mp hchosen)) hev (.callWrite hfns)
      · obtain ⟨r, hr, -⟩ := Option.map_eq_some_iff.mp hchosen
        exact served_callHandler f _ h hcxt (.read hfns) (hnet.call hr) hev

theorem served_callWrite {ev : EpollEvent} {e : PullEnt} {t : Todo} (h : w.sh.Served)
    (hcxt : w.sh.callCxt = none) (hmain : w.sh.main = .callWrite ev e t) :
    (e.wr = none → (w.setMain (.next t)).sh.Served) ∧
      ∀ f, e.wr = some f → (w.callHandler f ev (.next t)).sh.Served := by
  obtain ⟨pc, epc, hnet, hev, hidle⟩ := h.at_idle hcxt
  rw [hmain] at hidle
  cases hidle with
  | @callWrite ev' =>
      rename_i hfns
      have hchosen := chosen_fns ev' hfns (d := .write) (by decide)
      refine ⟨fun hwr => ?_, fun f hwr => ?_⟩ <;> rw [PullEnt.fns, hwr] at hchosen
      · exact .idle hcxt (hnet.pass (Option.map_eq_none_iff.mp hchosen)) hev .next
      · obtain ⟨r, hr, -⟩ := Option.map_eq_some_iff.mp hchosen
        exact served_callHandler f _ h hcxt .write (hnet.call hr) hev

/-- conn_accept_handler accepts a connection. -/
theorem acceptConn_calls {fd : Fd} (ep : Endpoint) (ok : Bool) (hfd : w.sh.net.fds fd = none) :
    w.sh.Calls (w.acceptConn fd ep ok).sh where
  mainStat := rfl
  main := rfl
  net := .single (.openAdd _ ok _ hfd)
  ev := by
    have hids : EventsCalls w.sh.ev w.sh.ev.eventGetId.eventGetId :=
      .tail (.single .getId) .getId
    have hreq := (hids.tail (.post w.sh.ev.idMax true)).tail
      (.setHandler w.sh.ev.idMax ⟨w.nclients, .req⟩)
    exact (hreq.tail (.post (w.sh.ev.idMax + 1) true)).tail
      (.setHandler (w.sh.ev.idMax + 1) ⟨w.nclients, .rsp⟩)

theorem served_accept {sfd : Fd} (h : w.sh.Served) (hcxt : w.sh.callCxt = none)
    (hmain : w.sh.main = .accept sfd k) : (w.setMain k).sh.Served ∧
      ∀ fd ep ok, w.sh.net.fds fd = none → (w.acceptConn fd ep ok).sh.Served := by
  obtain ⟨pc, epc, hnet, hev, hidle⟩ := h.at_idle hcxt
  rw [hmain] at hidle
  cases hidle with
  | accept hin =>
      refine ⟨hin.served hcxt hnet hev, fun fd ep ok hfd => ?_⟩
      have hcalls := acceptConn_calls ep ok hfd
      refine .idle hcxt (hnet.calls hin.free hcalls.net) (hev.calls (by decide) hcalls.ev) ?_
      rw [hcalls.main, hmain]
      exact .accept hin

theorem served_dnsRead (h : w.sh.Served) (hcxt : w.sh.callCxt = none)
    (hmain : w.sh.main = .dnsRead k) : (w.setMain k).sh.Served ∧
      ∀ eid d, Shared.Served { w.sh with ev := w.sh.ev.eventPost eid d } := by
  obtain ⟨pc, epc, hnet, hev, hidle⟩ := h.at_idle hcxt
  rw [hmain] at hidle
  cases hidle with
  | dnsRead hin =>
      refine ⟨hin.served hcxt hnet hev, fun eid d => ?_⟩
      have hpost := hev.calls (by decide) (.single (.post eid d))
      refine .idle hcxt hnet hpost ?_
      show w.sh.main.Idle _ pc .outside
      rw [hmain]
      exact .dnsRead hin

/-- A step of the main loop that is not the one into proxy_done. -/
theorem served_mainStep (h : w.sh.Served) (hcxt : w.sh.callCxt = none)
    (hrun : w.sh.mainStat = .running) (hs : w.mainStep ch = some w')
    (hrun' : w'.sh.mainStat = .running) : w'.sh.Served := by
  have hdone : w.proxyDone ≠ w' := by
    rintro rfl
    exact absurd hrun' (by simp [proxyDone])
  unfold mainStep at hs
  split at hs <;> rename_i hmain
  · exact Option.some.inj hs ▸ served_eventWork h hcxt hmain hrun
  · exact Option.some.inj hs ▸ served_eventRet h hcxt hmain
  · unfold epollWait at hs
    split at hs
    · split at hs
      · exact absurd (Option.some.inj hs) hdone
      · rename_i evs hcnt
        obtain ⟨hall, heq⟩ := Option.ite_none_right_eq_some.mp hs
        exact Option.some.inj heq ▸ served_batch h hcxt hmain hcnt (List.all_eq_true.mp hall)
    · exact absurd (Option.some.inj hs) hdone
    · exact absurd hs (by simp)
  · exact Option.some.inj hs ▸ served_nextTodo h hcxt hmain
  · obtain ⟨hnone, hsome⟩ := served_callRead h hcxt hmain
    split at hs
    · exact Option.some.inj hs ▸ hnone ‹_›
    · exact Option.some.inj hs ▸ hsome _ ‹_›
  · obtain ⟨hnone, hsome⟩ := served_callWrite h hcxt hmain
    split at hs
    · exact Option.some.inj hs ▸ hnone ‹_›
    · exact Option.some.inj hs ▸ hsome _ ‹_›
  · obtain ⟨hstop, hconn⟩ := served_accept h hcxt hmain
    split at hs
    · exact Option.some.inj hs ▸ hstop
    · obtain ⟨hfd, heq⟩ := Option.ite_none_left_eq_some.mp hs
      exact Option.some.inj heq ▸ hconn _ _ _ (by simpa using hfd)
    · exact absurd hs (by simp)
  · obtain ⟨hstop, hpost⟩ := served_dnsRead h hcxt hmain
    split at hs
    · rename_i eid _ _
      obtain rfl := Option.some.inj hs
      exact hpost eid false
    · exact Option.some.inj hs ▸ hstop
  · exact absurd hs (by simp)

-- ============================================================================
-- Runs
-- ============================================================================

/-- Nothing is open, and the table is empty. -/
def noNet : Net :=
  { table := [], fdCnt := 0, epoll := fun _ => false, fds := fun _ => none, acts := [] }

theorem served_noNet : noNet.Served .outside :=
  ⟨PullModule.init, .start, ⟨fun _ => rfl, rfl, rfl, fun _ => rfl⟩, rfl⟩

/-- The standard descriptors, epoll, the signals and the listening socket are opened in turn,
    and the last two registered. -/
theorem calls_init : NetCalls noNet init.sh.net := by
  have hfour : NetCalls noNet ((((noNet.sysOpen 0 .listen).sysOpen 1 .listen).sysOpen
      2 .listen).sysOpen 3 .listen) := by
    have hzero : NetCall noNet (noNet.sysOpen 0 .listen) := .openAdd .listen false none rfl
    exact .tail (.tail (.tail (.single hzero) (.openAdd .listen false none rfl))
      (.openAdd .listen false none rfl)) (.openAdd .listen false none rfl)
  have hsignal := (hfour.tail (@NetCall.openAdd _ signalFd .signal true none rfl)).tail
    (.setHandler signalFd .read (some .dns))
  have hlisten := (hsignal.tail (@NetCall.openAdd _ 5 .listen true none rfl)).tail
    (.setHandler 5 .read (some (.accept 5)))
  refine cast (congrArg (NetCalls noNet) ?_) hlisten
  have hepoll : Function.update (Function.update (fun _ => false) signalFd true) 5 true =
      init.sh.net.epoll := by
    funext fd
    rcases fd with _ | _ | _ | _ | _ | _ | fd <;> rfl
  have hfds : ((((((noNet.sysOpen 0 .listen).sysOpen 1 .listen).sysOpen 2 .listen).sysOpen
      3 .listen).sysOpen signalFd .signal).sysOpen 5 .listen).fds = init.sh.net.fds := by
    funext fd
    rcases fd with _ | _ | _ | _ | _ | _ | fd <;> rfl
  exact Net.mk.injEq .. ▸ ⟨rfl, rfl, hepoll, hfds, rfl⟩

theorem served_init : init.sh.Served := by
  have hout : Events.Served init.sh.ev .outside :=
    ⟨EventModule.init, .start, ⟨rfl, [], EventModule.inv_init, rfl⟩, rfl⟩
  exact .idle rfl (served_noNet.calls rfl calls_init) hout.work .eventWork

/-- Until proxy_done, net_pull_work and event_work are where the modules of
    HttpProxy.Dispatch reach, whatever the proxy does. -/
theorem served {w : World} (h : w.Reachable) (hrun : w.sh.mainStat = .running) :
    w.sh.Served := by
  have hall : w.sh.mainStat = .running → w.sh.Served := by
    refine h.invariant (fun w => w.sh.mainStat = .running → w.sh.Served) (fun _ => served_init) ?_
    intro w w' ch ih _ hs hrun'
    rcases step_cases hs with ⟨eid, hdns⟩ | ⟨hcxt, hmain⟩ | ⟨x, cl, l', hcxt, hcl, hco, rfl⟩
    · obtain ⟨-, heq⟩ := Option.ite_none_right_eq_some.mp hdns
      obtain rfl := Option.some.inj heq
      exact ih hrun'
    · have hrun : w.sh.mainStat = .running := by
        rcases mainStep_mainStat w hmain with hsame | rfl
        · exact hsame ▸ hrun'
        · exact absurd hrun' (by simp [proxyDone])
      exact served_mainStep (ih hrun) hcxt hrun hmain hrun'
    · have hcalls := coStep_calls hco
      exact (ih (hcalls.mainStat ▸ hrun')).co hcxt hcalls
  exact hall hrun

/-- Until proxy_done, epoll watches only descriptors that are open. -/
theorem watched_open {w : World} (h : w.Reachable) (hrun : w.sh.mainStat = .running) {fd : Fd}
    (hwatched : w.sh.net.epoll fd = true) : (w.sh.net.fds fd).isSome = true := by
  obtain ⟨pc, epc, ⟨m, hreach, hshows, -⟩, -, -⟩ := served h hrun
  rw [hshows.fds]
  rw [hshows.epoll] at hwatched
  exact PullModule.watches_run PullModule.watches_init hreach fd hwatched

end World

end HttpProxy
