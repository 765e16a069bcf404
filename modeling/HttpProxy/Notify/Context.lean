/-
  HttpProxy.Notify.Context

  The context of a client lives on the stack of its request coroutine, and the
  response coroutine works on it.  The request coroutine gets past its last wait
  by one event only, which the response coroutine posts when it returns
  (`ReqMatched`: it is woken by nothing else, whatever reaches the response
  coroutine), so the context outlives its reader (`context_outlives`).
-/

import HttpProxy.Notify.Wrap

namespace HttpProxy
namespace Notify

variable {s s' : State}

-- ============================================================================
-- The last wait
-- ============================================================================

/-- The request coroutine is past its last wait only when the response coroutine
    has returned. -/
structure Outlives (s : State) : Prop where
  matched : ReqMatched s
  stays : ∀ c p, s.peers c = some p → p.rspWillExited = false
  past : ∀ c p, s.peers c = some p → p.req = .cleanup ∨ p.req = .finished → p.rsp = .finished

/-- Nothing sets `rsp_will_exited`. -/
theorem rspWillExited_step (hs : Step s s') {c : ClientId} {p' : Peer} (hp' : s'.peers c = some p')
    (h : ∀ p, s.peers c = some p → p.rspWillExited = false) : p'.rspWillExited = false := by
  cases peer_case hs hp' with
  | same hp _ _ => exact h p' hp
  | req hp _ hr _ =>
      have hold := h _ hp
      cases hr <;> exact hold
  | rsp hp _ hr _ =>
      have hold := h _ hp
      cases hr <;> exact hold
  | @woken p ret side hp _ _ hres _ _ =>
      have hold := h p hp
      rw [hres]
      cases side with
      | req => cases hpc : p.req <;> simp [Peer.resume, hpc, hold]
      | rsp => cases hpc : p.rsp <;> simp [Peer.resume, hpc, hold]
  | new _ hnew _ _ _ _ => simp [hnew, Peer.new]

/-- What ends the last wait is the farewell of the response coroutine. -/
theorem final_woken (h : ReqMatched s) (hs : Step s s') {c : ClientId} {p : Peer}
    (hp : s.peers c = some p) (hrun : s.hub.running = none)
    (hrun' : s'.hub.running = some ⟨c, .req⟩) (hfinal : p.req = .final) : p.rsp = .finished := by
  have hpark : p.ReqParked := h.park.parked ⟨c, .req⟩ p (by simp [hrun]) hp
  simp only [Peer.ReqParked, hfinal] at hpark
  have htok := tok_woken h hs hp hrun hrun' hpark
  have hdue := h.due c p hp
  by_cases hfin : p.rsp = .finished
  · exact hfin
  · simp only [Peer.due, hfinal, hfin, if_false] at hdue
    omega

theorem outlives_step (h : Outlives s) (hw : NoWrap s) (hs : Step s s') : Outlives s' where
  matched := reqMatched_step h.matched hw hs
  stays := fun c _ hp' => rspWillExited_step hs hp' (h.stays c)
  past := by
    intro c p' hp' hpast
    cases peer_case hs hp' with
    | same hp _ _ => exact h.past c p' hp hpast
    | @req p _ hp _ hr _ =>
        rw [hr.rsp_eq.2.1]
        cases hr with
        | skip _ hexit => exact absurd ((h.stays c _ hp).symm.trans hexit) (by simp)
        | cleanup hpc _ => exact h.past c _ hp (.inl hpc)
        | go _ hpos _ => rcases hpos with rfl | rfl <;> simp at hpast
        | block _ _ => exact h.past c _ hp hpast
        | noLookup _ => exact h.past c _ hp hpast
        | append _ _ _ => exact h.past c _ hp hpast
        | _ => simp at hpast
    | @rsp p _ hp _ hr _ =>
        rw [hr.req_eq.2.1] at hpast
        have hfin := h.past c p hp hpast
        cases hr with
        | stuck => exact hfin
        | go _ _ => exact hfin
        | block _ _ => exact hfin
        | exit _ _ => rfl
        | leave hpc => exact absurd (hpc.symm.trans hfin) (by simp)
        | sleep hpc _ => exact absurd (hpc.symm.trans hfin) (by simp)
        | serve hpc _ => exact absurd (hpc.symm.trans hfin) (by simp)
        | served hpc _ => exact absurd (hpc.symm.trans hfin) (by simp)
    | @woken p ret side hp hrun hlive hres hrun' _ =>
        cases side with
        | rsp =>
            have hreq : p'.req = p.req := hres ▸ (resume_rsp_req p ret).2.1
            have hfin := h.past c p hp (hreq ▸ hpast)
            simp [Peer.isFinished, hfin] at hlive
        | req =>
            have hrsp : p'.rsp = p.rsp := hres ▸ (resume_req_rsp p ret).2.1
            rw [hrsp]
            cases hpc : p.req with
            | final => exact final_woken h.matched hs hp hrun hrun' hpc
            | cleanup => exact h.past c p hp (.inl hpc)
            | finished => exact h.past c p hp (.inr hpc)
            | _ => simp [hres, Peer.resume, hpc] at hpast
    | new _ hnew _ _ _ _ => simp [hnew, Peer.new] at hpast

end Notify

open Lib Notify World

-- ============================================================================
-- The context of a client
-- ============================================================================

theorem outlives_init : Outlives World.init.notify where
  matched := matched_init.req
  stays := fun _ _ hp => absurd hp (by simp [World.notify, World.init])
  past := fun _ _ hp => absurd hp (by simp [World.notify, World.init])

theorem World.outlives {ok : World → Choice → Prop} (hids : ∀ w ch, ok w ch → w.idsLeft = true)
    {w : World} (h : Run World.step ok World.init w) : Outlives w.notify :=
  notify_invariant outlives_init
    (fun w _ ch hI hok _ hs => outlives_step hI (noWrap_of_idsLeft (hids w ch hok)) hs) h

theorem Notify.Outlives.live {w : World} {c : ClientId} {cl : Client} (h : Outlives w.notify)
    (hcl : w.clients c = some cl) (hrsp : cl.rsp.pos ≠ .finished) :
    cl.req.pos ≠ .cleanup ∧ cl.req.pos ≠ .finished := by
  have hp : w.notify.peers c = some cl.peer := by simp [World.notify, hcl]
  have hpast := h.past c cl.peer hp
  exact ⟨fun hpc => hrsp (hpast (.inl hpc)), fun hpc => hrsp (hpast (.inr hpc))⟩

/-- While a request is served the request coroutine has not returned. -/
theorem Notify.Outlives.serving {w : World} {c : ClientId} {cl : Client} (h : Outlives w.notify)
    (hcl : w.clients c = some cl) {n : Nat} {e : Entry} {p : Io Int}
    (hrsp : cl.rsp = .serve n e p) : cl.req.pos ≠ .finished :=
  (h.live hcl (by simp [hrsp, RspPc.pos])).2

/-- As long as the response coroutine has not returned, the request coroutine is
    not past its last wait: its stack, and with it the context, is there, and
    nothing of it has been torn down. -/
theorem context_outlives {w : World} {c : ClientId} {cl : Client}
    (h : Run World.step (fun w _ => w.idsLeft = true) World.init w)
    (hcl : w.clients c = some cl) (hrsp : cl.rsp.pos ≠ .finished) :
    cl.req.pos ≠ .cleanup ∧ cl.req.pos ≠ .finished := by
  have hout := outlives (fun _ _ hok => hok) h
  exact hout.live hcl hrsp

/-- After one exchange the response coroutine sleeps, and the context is there. -/
theorem oneExchange_outlives : ∃ (w : World) (cl : Client),
    Run World.step (fun w _ => w.idsLeft = true) World.init w ∧ w.clients 0 = some cl ∧
      cl.rsp.pos = .empty ∧ cl.req.pos ≠ .cleanup ∧ cl.req.pos ≠ .finished := by
  have hd : (World.driveInit (fun w _ => w.idsLeft) 500 (oneRequest ++ oneResponse)).any (fun w =>
      (w.clients 0).any fun cl => cl.rsp.pos = .empty) = true := by
    decide +kernel
  obtain ⟨w, hr, hp⟩ := exists_run_of_drive hd
  obtain ⟨cl, hcl, hp⟩ := (Option.any_eq_true _ _).mp hp
  have hempty := of_decide_eq_true hp
  exact ⟨w, cl, hr, hcl, hempty, context_outlives hr hcl (by simp [hempty])⟩

/-- The last visitor is given the id another client posts events for: its request
    coroutine is started by the notice of that client, and its last wait is ended by
    the farewell of that client, before its response coroutine has begun. -/
theorem context_lost_reachable : ∃ (w : World) (c : ClientId) (cl : Client), w.Reachable ∧
    w.sh.mainStat = .running ∧ w.clients c = some cl ∧ cl.rsp.pos ≠ .finished ∧
    cl.req.pos = .cleanup := by
  obtain ⟨w, cl, hr, hrests, hcl, hst, htable, h7, hid, hn⟩ := wrapped_reachable
  let ep : Endpoint := ⟨.inet, 0, []⟩
  have hbatch := leads_epoll hrests [⟨7, false⟩, ⟨5, false⟩] (by simp [hrests.polled, h7])
  -- the request is appended and its answer fails: both events are for id 1
  let w₁ := w.setMain (.next (.batch [⟨7, false⟩, ⟨5, false⟩]))
  have hfind : w₁.sh.net.pullFind 7 = some stalledEnt := by
    show w.sh.net.pullFind 7 = _
    rw [Net.pullFind, htable]
    rfl
  obtain ⟨⟨c₂, cl₂, sh₂⟩, hl₂, hc, -, -, -, hsh₂⟩ := leads_stalled (w := w₁) hrests.fault
    hrests.callCxt hrests.mainStat rfl hfind hcl hst
  dsimp only at hc hsh₂
  subst hc
  let w₂ := w₁.setLocal ⟨0, cl₂, sh₂⟩
  have hrun₂ : w₂.sh.callCxt = none := by simp [w₂, setLocal, hsh₂, w₁, setMain, hrests.callCxt]
  have hfault₂ : w₂.sh.fault = none := by simp [w₂, setLocal, hsh₂, w₁, setMain, hrests.fault]
  have hstat₂ : w₂.sh.mainStat = .running := by
    simp [w₂, setLocal, hsh₂, w₁, setMain, hrests.mainStat]
  have hcalled : w₂.step .tau = some (w₂.setMain (.next (.batch [⟨5, false⟩]))) := by
    simp [step, mainStep, hrun₂, hfault₂]
    simp [w₂, setLocal, hsh₂, stalledEnt]
  -- the visitor connects
  obtain ⟨hlistens, hlisten, hfree⟩ := stalledNet_listens htable hrests.free
  have haccept := leads_accept (w := w₂.setMain (.next (.batch [⟨5, false⟩]))) ep [] hfault₂ hrun₂
    rfl (by simpa [w₂, setLocal, hsh₂, setMain, w₁] using hlistens)
    (by simpa [w₂, setLocal, hsh₂, setMain, w₁] using hlisten)
    (by simpa [w₂, setLocal, hsh₂, setMain, w₁] using hfree)
  let w₃ := ({ w₂ with sh.main := .eventWork }).acceptConn 8 ep true
  have hdone : (({ w₂ with sh.main := .next (.batch []) }).acceptConn 8 ep true).step .tau =
      some w₃ := by
    simp [step, mainStep, nextTodo, setMain, acceptConn, newClient, hfault₂, hrun₂, w₃]
  have hid₂ : w₂.sh.ev.idMax = 1 := by simp [w₂, setLocal, hsh₂, w₁, setMain, hid]
  have hn₂ : w₂.nclients = w.nclients := rfl
  -- its request coroutine is started by the notice of the other client
  have hqueue₃ : w₃.sh.ev.queue = (1, true) :: [(1, false), (1, true), (2, true)] := by
    simp [w₃, acceptConn, newClient, hid₂]
    simp [w₂, setLocal, hsh₂, w₁, setMain, hrests.queue]
  have hcl₃ : w₃.clients w.nclients = some (newClient w₂.sh (visitorConn 8 ep)) := by
    simp [w₃, acceptConn, newClient, visitorConn, hn₂]
  have hh₃ : w₃.sh.ev.handlers 1 = some ⟨w.nclients, .req⟩ := by
    simp [w₃, acceptConn, newClient, hid₂, hn₂]
  have hwake := leads_wake (w := w₃) hfault₂ hrun₂ rfl hqueue₃ hh₃ hcl₃ rfl
  obtain ⟨⟨c₄, cl₄, sh₄⟩, hdrive, hc, -, -, hreq₄, hrsp₄, hsh₄⟩ :=
    visitor_req w.nclients w₂.sh 8 ep [(1, true), (1, false), (1, true), (2, true)] w₃.sh hfault₂
      hstat₂
  dsimp only at hc hreq₄ hrsp₄ hsh₄
  subst hc
  -- and its last wait is ended by the farewell of the other client
  let w₄ := w₃.setLocal ⟨w.nclients, cl₄, sh₄⟩
  have hqueue₄ : w₄.sh.ev.queue =
      (1, true) :: (1, false) :: [(1, true), (2, true), (2, false)] := by
    simp [w₄, setLocal, hsh₄, hid₂]
  have hh₄ : w₄.sh.ev.handlers 1 = some ⟨w.nclients, .req⟩ := by
    simp [w₄, setLocal, hsh₄, hid₂]
  have hcl₄ : w₄.clients w.nclients = some cl₄ := by simp [w₄, setLocal, setClient]
  have hfault₄ : w₄.sh.fault = none := by
    simpa [w₄, setLocal, hsh₄, w₃, acceptConn] using hfault₂
  have hend := leads_event hfault₄ (by simp [w₄, setLocal, hsh₄]) (by simp [w₄, setLocal, hsh₄])
    hqueue₄ hh₄ hcl₄ (by simp [Client.isFinished, hreq₄])
  have hstarted := hwake.trans (leads_drive rfl hdrive)
  refine ⟨_, w.nclients, cl₄.resume .req 1, Run.append hr (hbatch.trans (hl₂.trans
    ((leads_step _ hcalled).trans (haccept.trans ((leads_step _ hdone).trans
      (hstarted.trans hend)))))), ?_, ?_, ?_, ?_⟩
  · simp [setLocal, Local.woken, w₄, hsh₄, w₃, acceptConn, hstat₂]
  · simp [setLocal, setClient, Local.woken]
  · simp [Client.resume, Client.resumeReq, hreq₄, hrsp₄, RspPc.pos]
  · simp [Client.resume, Client.resumeReq, hreq₄, ReqPc.pos]

end HttpProxy
