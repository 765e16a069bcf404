/-
  HttpProxy.Notify.Requests

  No request notice is lost: a coroutine that has not returned is registered for
  its event, and when something has been appended since the response coroutine
  went to sleep on an empty list, an event for it is in the queue (`Heard`).  The
  flag `rsp_blocked` is what carries this: it is set whenever the coroutine
  sleeps, so that an append then posts.
-/

import HttpProxy.Notify.Ids

namespace HttpProxy
namespace Notify

structure Heard (s : State) : Prop where
  ids : IdsOk s
  queue : QueueOk s
  exit : ExitOk s
  reqHandler : ∀ c p, s.peers c = some p → s.hub.exited = false → p.req ≠ .finished →
    s.hub.ev.handlers p.evReq = some ⟨c, .req⟩
  rspHandler : ∀ c p, s.peers c = some p → s.hub.exited = false → p.rsp ≠ .finished →
    s.hub.ev.handlers p.evRsp = some ⟨c, .rsp⟩
  blocked : ∀ c p, s.peers c = some p → p.rsp = .empty → p.rspBlocked = true
  notice : ∀ c p, s.peers c = some p → p.rsp = .empty → p.queued = true →
    s.hub.exited = false ∧ ∃ d, (p.evRsp, d) ∈ s.hub.queue

variable {s s' : State}

/-- The request coroutine leaves the response coroutine where it is. -/
theorem ReqStep.rsp_eq {c : ClientId} {p p' : Peer} {h h' : Hub} (hr : ReqStep c p h p' h') :
    p'.evRsp = p.evRsp ∧ p'.rsp = p.rsp ∧ p'.rspBlocked = p.rspBlocked ∧
      p'.rspWait = p.rspWait := by
  cases hr <;> exact ⟨rfl, rfl, rfl, rfl⟩

theorem resume_req_rsp (p : Peer) (ret : Int) :
    (p.resume ret .req).evRsp = p.evRsp ∧ (p.resume ret .req).rsp = p.rsp ∧
      (p.resume ret .req).rspBlocked = p.rspBlocked ∧ (p.resume ret .req).rspWait = p.rspWait ∧
      (p.resume ret .req).queued = p.queued := by
  cases hp : p.req <;> simp [Peer.resume, hp]

/-- The response coroutine leaves the request coroutine where it is. -/
theorem RspStep.req_eq {c : ClientId} {p p' : Peer} {h h' : Hub} (hr : RspStep c p h p' h') :
    p'.evReq = p.evReq ∧ p'.req = p.req ∧ p'.reqBlocked = p.reqBlocked ∧
      p'.reqWait = p.reqWait := by
  cases hr <;> exact ⟨rfl, rfl, rfl, rfl⟩

theorem resume_rsp_req (p : Peer) (ret : Int) :
    (p.resume ret .rsp).evReq = p.evReq ∧ (p.resume ret .rsp).req = p.req ∧
      (p.resume ret .rsp).reqBlocked = p.reqBlocked ∧
      (p.resume ret .rsp).reqWait = p.reqWait := by
  cases hp : p.rsp <;> simp [Peer.resume, hp]

theorem resume_rsp_ne_empty (p : Peer) (ret : Int) : (p.resume ret .rsp).rsp ≠ .empty := by
  cases hp : p.rsp <;> simp [Peer.resume, hp]
  split <;> simp

theorem resume_req_ne_final (p : Peer) (ret : Int) : (p.resume ret .req).req ≠ .final := by
  cases hp : p.req <;> simp [Peer.resume, hp]

theorem resume_req_ne_finished {p : Peer} {ret : Int} (hfin : p.req ≠ .finished) :
    (p.resume ret .req).req ≠ .finished := by
  cases hp : p.req <;> simp_all [Peer.resume]

theorem resume_rsp_ne_finished {p : Peer} {ret : Int} (hfin : p.rsp ≠ .finished) :
    (p.resume ret .rsp).rsp ≠ .finished := by
  cases hp : p.rsp <;> simp_all [Peer.resume]
  split <;> simp

/-- The request coroutine posts a notice when it appends for a sleeping response
    coroutine. -/
theorem ReqStep.queued {c : ClientId} {p p' : Peer} {h h' : Hub} (hr : ReqStep c p h p' h')
    (hok : h.inEvent = true → h.ev.queue ≠ []) (hq : p'.queued = true)
    (hb : p.rspBlocked = true) : p.queued = true ∨ (p.evRsp, true) ∈ h'.queue := by
  cases hr with
  | append _ hpost _ => exact .inr (Hub.mem_queue_of_post hok rfl (by simp [hpost hb]))
  | cleanup _ _ => exact absurd hq (by simp)
  | _ => exact .inl hq

/-- A request coroutine that has not returned is registered for its event. -/
theorem reqHandler_step (h : Heard s) (hw : NoWrap s) (hs : Step s s') {c : ClientId}
    {p' : Peer} (hp' : s'.peers c = some p') (hexit' : s'.hub.exited = false)
    (hfin : p'.req ≠ .finished) : s'.hub.ev.handlers p'.evReq = some ⟨c, .req⟩ := by
  have hids := h.ids
  have hexit := exited_mono hs hexit'
  cases peer_case hs hp' with
  | same hp _ hev =>
      rw [handlers_same hids hw hs (x := ⟨c, .req⟩) ⟨p', hp, .inl rfl⟩
        (fun hr => (hev .req hr).1) hexit']
      exact h.reqHandler c p' hp hexit hfin
  | @req p h' hp hrun hr hh =>
      have hlt : p.evReq.toNat < s.hub.ev.idMax.toNat :=
        hids.lt p.evReq ⟨c, .req⟩ ⟨p, hp, .inl rfl⟩
      have hmax : p.evReq ≠ s.hub.ev.idMax := by
        intro heq
        rw [heq] at hlt
        omega
      have hold := h.reqHandler c p hp hexit
      rw [hh]
      cases hr with
      | lookup hpc => simpa [hmax] using hold (by simp [hpc])
      | noLookup hpc => simpa [hmax] using hold (by simp [hpc])
      | @resolved eid hpc =>
          have hne : p.evReq ≠ eid := (hids.dns c p eid hp (.inr hpc)).symm
          simpa [hne] using hold (by simp [hpc])
      | @append b _ hpc _ _ => cases b <;> simpa using hold (by simp [hpc])
      | final _ _ => simp
      | cleanup _ _ => exact absurd rfl hfin
      | go hpc _ _ => exact hold (by simp [hpc])
      | block hpc _ => exact hold (by simp [hpc])
      | skip hpc _ => exact hold (by simp [hpc])
  | @rsp p _ hp hrun hr _ =>
      obtain ⟨hevReq, hreq, -, -⟩ := hr.req_eq
      rw [hevReq, handlers_step hids hw hs (x := ⟨c, .req⟩) ⟨p, hp, .inl rfl⟩ (by simp [hrun])
        hexit']
      exact h.reqHandler c p hp hexit (hreq ▸ hfin)
  | @woken p ret side hp _ hlive hres _ hev =>
      have hreq : p.req ≠ .finished := by
        cases side with
        | req => simpa [Peer.isFinished] using hlive
        | rsp =>
            have heq := (resume_rsp_req p ret).2.1
            rwa [hres, heq] at hfin
      rw [hres, (sameIds_resume p ret side).evReq, hev]
      exact h.reqHandler c p hp hexit hreq
  | new hc hnew hh _ _ _ =>
      have hne : s.hub.ev.idMax ≠ s.hub.ev.idMax + 1 := by
        intro heq
        have htn := congrArg UInt32.toNat heq
        rw [toNat_add_one (Nat.lt_of_succ_lt hw)] at htn
        omega
      rw [hh, hnew]
      simp [Events.newClient, Peer.new, hc, hne]

/-- A response coroutine that has not returned is registered for its event. -/
theorem rspHandler_step (h : Heard s) (hw : NoWrap s) (hs : Step s s') {c : ClientId} {p' : Peer}
    (hp' : s'.peers c = some p') (hexit' : s'.hub.exited = false) (hfin : p'.rsp ≠ .finished) :
    s'.hub.ev.handlers p'.evRsp = some ⟨c, .rsp⟩ := by
  have hexit := exited_mono hs hexit'
  cases peer_case hs hp' with
  | same hp _ hev =>
      rw [handlers_same h.ids hw hs (x := ⟨c, .rsp⟩) ⟨p', hp, rfl⟩ (fun hr => (hev .rsp hr).1)
        hexit']
      exact h.rspHandler c p' hp hexit hfin
  | @req p _ hp hrun hr _ =>
      obtain ⟨hevRsp, hrsp, -, -⟩ := hr.rsp_eq
      rw [hevRsp, handlers_step h.ids hw hs (x := ⟨c, .rsp⟩) ⟨p, hp, rfl⟩ (by simp [hrun]) hexit']
      exact h.rspHandler c p hp hexit (hrsp ▸ hfin)
  | rsp hp _ hr hh =>
      rw [hh]
      have hold := h.rspHandler c _ hp hexit
      cases hr with
      | sleep _ _ => simp
      | exit _ _ => exact absurd rfl hfin
      | stuck => exact hold hfin
      | leave hpc => exact hold (by simp [hpc])
      | serve hpc _ => exact hold (by simp [hpc])
      | go hpc _ => exact hold (by simp [hpc])
      | block hpc _ => exact hold (by simp [hpc])
      | served hpc _ => exact hold (by simp [hpc])
  | @woken p ret side hp _ _ hres _ hev =>
      have hrsp : p.rsp ≠ .finished := by
        intro hp
        cases side with
        | req => exact hfin (hres ▸ (resume_req_rsp p ret).2.1.trans hp)
        | rsp => simp [hres, Peer.resume, hp] at hfin
      rw [hres, (sameIds_resume p ret side).evRsp, hev]
      exact h.rspHandler c p hp hexit hrsp
  | new hc hnew hh _ _ _ =>
      rw [hh, hnew]
      simp [Events.newClient, Peer.new]

theorem rspBlocked_step (h : Heard s) (hs : Step s s') {c : ClientId} {p' : Peer}
    (hp' : s'.peers c = some p') (hempty : p'.rsp = .empty) : p'.rspBlocked = true := by
  cases peer_case hs hp' with
  | same hp _ _ => exact h.blocked c p' hp hempty
  | @req p _ hp _ hr _ =>
      obtain ⟨-, hrsp, hb, -⟩ := hr.rsp_eq
      exact hb.trans (h.blocked c p hp (hrsp ▸ hempty))
  | rsp hp _ hr _ =>
      cases hr with
      | sleep _ _ => rfl
      | stuck => exact h.blocked c _ hp hempty
      | go hpc _ => exact absurd (hpc.symm.trans hempty) (by simp)
      | block hpc _ => exact absurd (hpc.symm.trans hempty) (by simp)
      | _ => exact absurd hempty (by simp)
  | @woken p ret side hp _ _ hres _ _ =>
      cases side with
      | req =>
          obtain ⟨-, hrsp, hb, -, -⟩ := resume_req_rsp p ret
          rw [hres] at hempty ⊢
          exact hb.trans (h.blocked c p hp (hrsp ▸ hempty))
      | rsp => exact absurd (hres ▸ hempty) (resume_rsp_ne_empty p ret)
  | new _ hnew _ _ _ _ => simp [hnew, Peer.new] at hempty

/-- A notice for a response coroutine stays in the queue until it is woken. -/
theorem rspNotice_kept (h : Heard s) (hs : Step s s') {c : ClientId} {p : Peer}
    (hp : s.peers c = some p) (hfin : p.rsp ≠ .finished)
    (hrun : s'.hub.running = some ⟨c, .rsp⟩ → s.hub.running = some ⟨c, .rsp⟩)
    (hn : s.hub.exited = false ∧ ∃ d, (p.evRsp, d) ∈ s.hub.queue) :
    s'.hub.exited = false ∧ ∃ d, (p.evRsp, d) ∈ s'.hub.queue := by
  obtain ⟨hexit, d, he⟩ := hn
  refine ⟨?_, d, event_kept h.queue hs (h.rspHandler c p hp hexit hfin) hrun he⟩
  rcases exited_step hs hexit with h | ⟨h, -⟩
  · exact h
  · rw [h] at he
    exact absurd he List.not_mem_nil

theorem notice_step (h : Heard s) (hs : Step s s') {c : ClientId} {p' : Peer}
    (hp' : s'.peers c = some p') (hempty : p'.rsp = .empty) (hqueued : p'.queued = true) :
    s'.hub.exited = false ∧ ∃ d, (p'.evRsp, d) ∈ s'.hub.queue := by
  cases peer_case hs hp' with
  | same hp hrun _ =>
      exact rspNotice_kept h hs hp (by simp [hempty]) (hrun .rsp) (h.notice c p' hp hempty hqueued)
  | @req p h' hp hrun hr hh =>
      obtain ⟨hevRsp, hrsp, -, -⟩ := hr.rsp_eq
      rw [hevRsp]
      have hempty₀ : p.rsp = .empty := hrsp ▸ hempty
      rcases hr.queued h.queue hqueued (h.blocked c p hp hempty₀) with hq | hq
      · have hne : h'.running ≠ some ⟨c, .rsp⟩ := by cases hr <;> simp [hrun]
        exact rspNotice_kept h hs hp (by simp [hempty₀]) (fun hr => absurd (hh ▸ hr) hne)
          (h.notice c p hp hempty₀ hq)
      · have hsome : s.hub.running ≠ none := by simp [hrun]
        rcases exited_step hs (not_exited_of_running h.exit hsome) with hx | ⟨-, hx⟩
        · exact ⟨hx, true, hh ▸ hq⟩
        · exact absurd hx hsome
  | rsp hp hrun hr _ =>
      cases hr with
      | sleep _ hq => exact absurd (hqueued.symm.trans hq) (by simp)
      | stuck =>
          exact rspNotice_kept h hs hp (by simp [hempty]) (fun _ => hrun)
            (h.notice c _ hp hempty hqueued)
      | go hpc _ => exact absurd (hpc.symm.trans hempty) (by simp)
      | block hpc _ => exact absurd (hpc.symm.trans hempty) (by simp)
      | _ => exact absurd hempty (by simp)
  | @woken p ret side hp _ _ hres hrun' _ =>
      cases side with
      | req =>
          obtain ⟨hevRsp, hrsp, -, -, hq⟩ := resume_req_rsp p ret
          rw [hres] at hempty hqueued ⊢
          rw [hevRsp]
          exact rspNotice_kept h hs hp (by simp [← hrsp, hempty]) (by simp [hrun'])
            (h.notice c p hp (hrsp ▸ hempty) (hq ▸ hqueued))
      | rsp => exact absurd (hres ▸ hempty) (resume_rsp_ne_empty p ret)
  | new _ hnew _ _ _ _ => simp [hnew, Peer.new] at hempty

theorem heard_step (h : Heard s) (hw : NoWrap s) (hs : Step s s') : Heard s' where
  ids := idsOk_step h.ids hw hs
  queue := (queue_step h.queue hs).2
  exit := exitOk_step h.exit hs
  reqHandler := fun _ _ => reqHandler_step h hw hs
  rspHandler := fun _ _ => rspHandler_step h hw hs
  blocked := fun _ _ => rspBlocked_step h hs
  notice := fun _ _ => notice_step h hs

end Notify
end HttpProxy
