/-
  HttpProxy.Notify.Notice

  No request notice is lost, as long as the event ids have not wrapped
  (`request_noticed`).  When they have, a later client is given the id the
  response coroutine of an earlier one waits for, and takes its handler
  (`notice_lost_reachable`).
-/

import HttpProxy.Notify.Wrap

namespace HttpProxy

open Lib Notify World

-- ============================================================================
-- Request notices
-- ============================================================================

/-- An event the response coroutine of `c` is registered for waits to be
    dispatched. -/
def World.RspNoticed (w : World) (c : ClientId) (cl : Client) : Prop :=
  (∃ d, (cl.cxt.evRsp, d) ∈ w.sh.hub.queue) ∧
    w.sh.ev.handlers cl.cxt.evRsp = some ⟨c, .rsp⟩

/-- A response coroutine that sleeps while the request list holds something has an
    event in the queue and is registered for it, as long as the event ids have not
    wrapped. -/
theorem request_noticed {w : World} {c : ClientId} {cl : Client}
    (h : Run World.step (fun w _ => w.idsLeft = true) World.init w)
    (hcl : w.clients c = some cl) (hempty : cl.rsp.pos = .empty)
    (hhead : cl.cxt.list.head ≠ none) : w.RspNoticed c cl := by
  have hheard : Heard w.notify :=
    notify_invariant heard_init
      (fun _ _ _ hI hok _ hs => heard_step hI (noWrap_of_idsLeft hok) hs) h
  have hp : w.notify.peers c = some cl.peer := by simp [World.notify, hcl]
  have hqueued : cl.peer.queued = true := by
    show cl.cxt.list.head.isSome = true
    rwa [Option.isSome_iff_ne_none]
  obtain ⟨hexit, d, hmem⟩ := hheard.notice c cl.peer hp hempty hqueued
  have hfin : cl.peer.rsp ≠ .finished := by
    show cl.rsp.pos ≠ .finished
    simp [hempty]
  exact ⟨⟨d, hmem⟩, hheard.rspHandler c cl.peer hp hexit hfin⟩

/-- When the first request has been forwarded the response coroutine still sleeps. -/
theorem oneRequest_noticed :
    ∃ (w : World) (cl : Client), Run World.step (fun w _ => w.idsLeft = true) World.init w ∧
    w.clients 0 = some cl ∧ cl.rsp.pos = .empty ∧ cl.cxt.list.head ≠ none ∧ w.RspNoticed 0 cl := by
  have hd : (World.driveInit (fun w _ => w.idsLeft) 300 (oneRequest.take 10)).any (fun w =>
      (w.clients 0).any fun cl => cl.rsp.pos = .empty && cl.cxt.list.head.isSome) = true := by
    decide +kernel
  obtain ⟨w, hr, hp⟩ := exists_run_of_drive hd
  obtain ⟨cl, hcl, hp⟩ := (Option.any_eq_true _ _).mp hp
  rw [Bool.and_eq_true, decide_eq_true_eq] at hp
  have hhead : cl.cxt.list.head ≠ none := Option.isSome_iff_ne_none.mp hp.2
  exact ⟨w, cl, hr, hcl, hp.1, hhead, request_noticed hr hcl hp.1 hhead⟩

/-- The last visitor takes the handler of `ev_notice_rsp` before the request is
    appended. -/
theorem notice_lost_reachable : ∃ (w : World) (cl : Client), w.Reachable ∧ w.clients 0 = some cl ∧
    cl.rsp.pos = .empty ∧ cl.cxt.list.head ≠ none ∧ ¬w.RspNoticed 0 cl := by
  obtain ⟨w, cl, hr, hrests, hcl, hst, htable, h7, hid, hn⟩ := wrapped_reachable
  let ep : Endpoint := ⟨.inet, 0, []⟩
  have hbatch := leads_epoll hrests [⟨5, false⟩, ⟨7, false⟩] (by simp [hrests.polled, h7])
  have haccept := leads_accept (w := w.setMain (.next (.batch [⟨5, false⟩, ⟨7, false⟩]))) ep
    [⟨7, false⟩] hrests.fault hrests.callCxt rfl hrests.listens hrests.listen hrests.free
  let v := ({ w with sh.main := .next (.batch [⟨7, false⟩]) }).acceptConn 8 ep true
  have hfind : v.sh.net.pullFind 7 = some stalledEnt := by
    simp [v, acceptConn, Net.netPullAdd, Net.sysOpen, Net.pullFind, htable]
    rfl
  have hcl' : v.clients 0 = some cl := by
    simpa [v, acceptConn, Function.update_of_ne (Nat.ne_of_lt hn)] using hcl
  obtain ⟨l, hl, hc, hrsp, hev, hhead, hsh⟩ := leads_stalled (w := v) hrests.fault hrests.callCxt
    hrests.mainStat rfl hfind hcl' hst
  refine ⟨v.setLocal l, l.cl, Run.append hr (hbatch.trans (haccept.trans hl)), ?_, ?_, hhead, ?_⟩
  · simp [setLocal, setClient, hc]
  · rw [hrsp, hst.rsp]
  · rintro ⟨-, hh⟩
    have hh' : l.sh.ev.handlers 1 = some ⟨0, .rsp⟩ := hev ▸ hh
    have hv : v.sh.ev.handlers 1 = some ⟨w.nclients, .req⟩ := by
      simp [v, acceptConn, newClient, hid]
    simp only [hsh] at hh'
    by_cases hreq : cl.cxt.evReq = 1
    · rw [hreq, Function.update_self] at hh'
      exact absurd hh' (by simp)
    · rw [Function.update_of_ne (Ne.symm hreq), hv] at hh'
      exact absurd hh' (by simp)

end HttpProxy
