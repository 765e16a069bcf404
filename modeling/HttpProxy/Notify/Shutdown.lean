/-
  HttpProxy.Notify.Shutdown

  The two coroutines of a client tell each other when they leave.  A request
  coroutine that goes to its last wait posts its farewell, the event of the response
  coroutine with NULL data, and this stays in the queue until it is dispatched.  It is
  never the first event of a response coroutine (`begins`), so what it finds is one that
  waits for a request, and leaves, or one that waits for I/O, and takes no notice of it.

  In runs where no step hits one of two gaps (`Heeded`: the farewell is dispatched to a
  wait for I/O, or the request coroutine comes to `req_done` after the response coroutine
  has returned, whose farewell set the wrong flag) one of the two ids has an event in the
  queue as long as the request coroutine is in its last wait (`Farewell`).
-/

import HttpProxy.Notify.Matched

namespace HttpProxy
namespace Notify

/-- A step from `s` to `s'` does not lose a farewell. -/
structure Heeded (s s' : State) : Prop where
  done : ∀ c p p', s.peers c = some p → s'.peers c = some p' → p.req = .done →
    p'.req = .final → p.rsp ≠ .finished
  /-- the farewell of a request coroutine does not wake a wait for I/O -/
  heard : ∀ c p fd d, s.peers c = some p → s.hub.running = none →
    s'.hub.running = some ⟨c, .rsp⟩ → s.hub.queue = (p.evRsp, false) :: s'.hub.queue →
    p.rspWait ≠ some (.io fd d)

structure Farewell (s : State) : Prop where
  matched : ReqMatched s
  blocked : ∀ c p, s.peers c = some p → p.req = .final → p.reqBlocked = true
  gone : ∀ c p, s.peers c = some p → p.req = .final → p.rsp = .finished →
    s.hub.exited = false ∧ ∃ d, (p.evReq, d) ∈ s.hub.queue
  /-- the first event of a response coroutine is the one it begins with -/
  begins : ∀ c p, s.peers c = some p → p.rsp = .start →
    s.hub.exited = false ∧ ∃ q₁ q₂, s.hub.queue = q₁ ++ (p.evRsp, true) :: q₂ ∧
      ∀ b, (p.evRsp, b) ∉ q₁
  /-- the farewell of a request coroutine is still to come -/
  told : ∀ c p, s.peers c = some p → p.req = .final → p.rsp ≠ .exit → p.rsp ≠ .finished →
    s.hub.exited = false ∧ (p.evRsp, false) ∈ s.hub.queue

variable {s s' : State}

theorem reqBlocked_step (h : Farewell s) (hs : Step s s') {c : ClientId} {p' : Peer}
    (hp' : s'.peers c = some p') (hfinal : p'.req = .final) : p'.reqBlocked = true := by
  cases peer_case hs hp' with
  | same hp _ _ => exact h.blocked c p' hp hfinal
  | @req p _ hp _ hr _ =>
      cases hr with
      | final _ _ => rfl
      | go _ hpos _ =>
          rcases hpos with hpos | hpos <;> exact absurd (hpos.symm.trans hfinal) (by simp)
      | block hpc _ => exact absurd (hpc.symm.trans hfinal) (by simp)
      | noLookup hpc => exact absurd (hpc.symm.trans hfinal) (by simp)
      | append hpc _ _ => exact absurd (hpc.symm.trans hfinal) (by simp)
      | _ => exact absurd hfinal (by simp)
  | @rsp p _ hp _ hr _ =>
      obtain ⟨-, hreq, hb, -⟩ := hr.req_eq
      exact hb.trans (h.blocked c p hp (hreq ▸ hfinal))
  | @woken p ret side hp _ _ hres _ _ =>
      rw [hres] at hfinal ⊢
      cases side with
      | req => exact absurd hfinal (resume_req_ne_final p ret)
      | rsp =>
          obtain ⟨-, hreq, hb, -⟩ := resume_rsp_req p ret
          exact hb.trans (h.blocked c p hp (hreq ▸ hfinal))
  | new _ hnew _ _ _ _ => simp [hnew, Peer.new] at hfinal

/-- A notice for a request coroutine stays in the queue until it is woken. -/
theorem reqNotice_kept (h : Farewell s) (hs : Step s s') {c : ClientId} {p : Peer}
    (hp : s.peers c = some p) (hfin : p.req ≠ .finished)
    (hrun : s'.hub.running = some ⟨c, .req⟩ → s.hub.running = some ⟨c, .req⟩)
    (hn : s.hub.exited = false ∧ ∃ d, (p.evReq, d) ∈ s.hub.queue) :
    s'.hub.exited = false ∧ ∃ d, (p.evReq, d) ∈ s'.hub.queue := by
  obtain ⟨hexit, d, he⟩ := hn
  refine ⟨?_, d, event_kept h.matched.heard.queue hs
    (h.matched.heard.reqHandler c p hp hexit hfin) hrun he⟩
  rcases exited_step hs hexit with hx | ⟨hx, -⟩
  · exact hx
  · rw [hx] at he
    exact absurd he List.not_mem_nil

/-- A coroutine that makes a step does not end the process. -/
theorem not_exited_step (hx : ExitOk s) (hs : Step s s') (hrun : s.hub.running ≠ none) :
    s'.hub.exited = false := by
  rcases exited_step hs (not_exited_of_running hx hrun) with h | ⟨-, h⟩
  · exact h
  · exact absurd h hrun

/-- When the response coroutine has returned, the request coroutine will be woken
    from its last wait. -/
theorem gone_step (h : Farewell s) (hg : Heeded s s') (hs : Step s s') {c : ClientId} {p' : Peer}
    (hp' : s'.peers c = some p') (hfinal : p'.req = .final) (hfin : p'.rsp = .finished) :
    s'.hub.exited = false ∧ ∃ d, (p'.evReq, d) ∈ s'.hub.queue := by
  cases peer_case hs hp' with
  | same hp hrun _ =>
      exact reqNotice_kept h hs hp (by simp [hfinal]) (hrun .req) (h.gone c p' hp hfinal hfin)
  | @req p _ hp _ hr _ =>
      have hrsp : p.rsp = .finished := hr.rsp_eq.2.1 ▸ hfin
      have hne : p.req = .done → False := fun hdone => hg.done c p p' hp hp' hdone hfinal hrsp
      cases hr with
      | final hpc _ => exact (hne hpc).elim
      | go _ hpos _ =>
          rcases hpos with hpos | hpos <;> exact absurd (hpos.symm.trans hfinal) (by simp)
      | block hpc _ => exact absurd (hpc.symm.trans hfinal) (by simp)
      | noLookup hpc => exact absurd (hpc.symm.trans hfinal) (by simp)
      | append hpc _ _ => exact absurd (hpc.symm.trans hfinal) (by simp)
      | _ => exact absurd hfinal (by simp)
  | @rsp p h' hp hrun hr hh =>
      obtain ⟨hevReq, hreq, -, -⟩ := hr.req_eq
      have hfinal₀ : p.req = .final := hreq ▸ hfinal
      have hkept (hrsp : p.rsp = .finished) (hrun' : h'.running ≠ some ⟨c, .req⟩) :
          s'.hub.exited = false ∧ ∃ d, (p.evReq, d) ∈ s'.hub.queue :=
        reqNotice_kept h hs hp (by simp [hfinal₀]) (fun hr => absurd (hh ▸ hr) hrun')
          (h.gone c p hp hfinal₀ hrsp)
      rw [hevReq]
      cases hr with
      | exit _ _ =>
          refine ⟨not_exited_step h.matched.heard.exit hs (by simp [hrun]), false, ?_⟩
          have hb := h.blocked c p hp hfinal₀
          rw [hh]
          exact Hub.mem_queue_of_post h.matched.heard.queue rfl (by simp [hb])
      | stuck => exact hkept hfin (by simp [hrun])
      | go hpc _ => exact absurd (hpc.symm.trans hfin) (by simp)
      | block hpc _ => exact absurd (hpc.symm.trans hfin) (by simp)
      | _ => exact absurd hfin (by simp)
  | @woken p ret side hp _ hlive hres hrun' _ =>
      cases side with
      | req => exact absurd (hres ▸ hfinal) (resume_req_ne_final p ret)
      | rsp =>
          have hne : p.rsp ≠ .finished := by simpa [Peer.isFinished] using hlive
          exact absurd (hres ▸ hfin) (resume_rsp_ne_finished hne)
  | new _ hnew _ _ _ _ => simp [hnew, Peer.new] at hfinal

/-- An event of a response coroutine stays where it is until that is woken: only what has been
    in front of it still is. -/
theorem rspEvent_behind (h : Farewell s) (hs : Step s s') {c : ClientId} {p : Peer}
    (hp : s.peers c = some p) (hfin : p.rsp ≠ .finished)
    (hrun : s'.hub.running = some ⟨c, .rsp⟩ → s.hub.running = some ⟨c, .rsp⟩) {d : Bool}
    {q₁ q₂ : List (EventId × Bool)} (hexit : s.hub.exited = false)
    (hq : s.hub.queue = q₁ ++ (p.evRsp, d) :: q₂) :
    s'.hub.exited = false ∧ ∃ q₁' q₂', s'.hub.queue = q₁' ++ (p.evRsp, d) :: q₂' ∧
      ∀ a ∈ q₁', a ∈ q₁ := by
  have hh := h.matched.heard.rspHandler c p hp hexit hfin
  refine ⟨?_, event_behind h.matched.heard.queue hs (e := (p.evRsp, d)) hh hrun hq⟩
  rcases exited_step hs hexit with hx | ⟨hx, -⟩
  · exact hx
  · rw [hx] at hq
    exact absurd hq.symm (by simp)

/-- The farewell stays in the queue until the response coroutine is woken. -/
theorem told_kept (h : Farewell s) (hs : Step s s') {c : ClientId} {p : Peer}
    (hp : s.peers c = some p) (hfin : p.rsp ≠ .finished)
    (hrun : s'.hub.running = some ⟨c, .rsp⟩ → s.hub.running = some ⟨c, .rsp⟩)
    (hn : s.hub.exited = false ∧ (p.evRsp, false) ∈ s.hub.queue) :
    s'.hub.exited = false ∧ (p.evRsp, false) ∈ s'.hub.queue := by
  obtain ⟨hexit, he⟩ := hn
  obtain ⟨q₁, q₂, hq⟩ := List.mem_iff_append.mp he
  obtain ⟨hexit', q₁', q₂', hq', -⟩ := rspEvent_behind h hs hp hfin hrun hexit hq
  rw [hq']
  exact ⟨hexit', List.mem_append_right _ List.mem_cons_self⟩

-- ============================================================================
-- The first event of a response coroutine
-- ============================================================================

/-- A new id has no event in the queue. -/
theorem fresh_notMem (h : ReqMatched s) {eid : EventId}
    (hge : s.hub.ev.idMax.toNat ≤ eid.toNat) (d : Bool) : (eid, d) ∉ s.hub.queue := by
  intro he
  have hpos := Hub.mem_queue_of_tok he
  rw [h.fresh eid hge] at hpos
  exact absurd hpos (Nat.lt_irrefl 0)

theorem begins_step (h : Farewell s) (hw : NoWrap s) (hs : Step s s') {c : ClientId} {p' : Peer}
    (hp' : s'.peers c = some p') (hstart : p'.rsp = .start) :
    s'.hub.exited = false ∧ ∃ q₁ q₂, s'.hub.queue = q₁ ++ (p'.evRsp, true) :: q₂ ∧
      ∀ b, (p'.evRsp, b) ∉ q₁ := by
  have hold {p : Peer} (hp : s.peers c = some p) (hrsp : p.rsp = .start)
      (hrun : s'.hub.running = some ⟨c, .rsp⟩ → s.hub.running = some ⟨c, .rsp⟩) :
      s'.hub.exited = false ∧ ∃ q₁ q₂, s'.hub.queue = q₁ ++ (p.evRsp, true) :: q₂ ∧
        ∀ b, (p.evRsp, b) ∉ q₁ := by
    obtain ⟨hexit, q₁, q₂, hq, hnot⟩ := h.begins c p hp hrsp
    obtain ⟨hexit', q₁', q₂', hq', hsub⟩ :=
      rspEvent_behind h hs hp (by simp [hrsp]) hrun hexit hq
    exact ⟨hexit', q₁', q₂', hq', fun b hb => hnot b (hsub _ hb)⟩
  cases peer_case hs hp' with
  | same hp hrun _ => exact hold hp hstart (hrun .rsp)
  | @req p h' hp hrun hr hh =>
      obtain ⟨hevRsp, hrsp, -, -⟩ := hr.rsp_eq
      have hne : h'.running ≠ some ⟨c, .rsp⟩ := by cases hr <;> simp [hrun]
      rw [hevRsp]
      exact hold hp (hrsp ▸ hstart) fun hrun' => absurd (hh ▸ hrun') hne
  | rsp hp hrun hr _ =>
      cases hr with
      | stuck => exact hold hp hstart fun _ => hrun
      | go hpc _ => exact absurd (hpc.symm.trans hstart) (by simp)
      | block hpc _ => exact absurd (hpc.symm.trans hstart) (by simp)
      | _ => exact absurd hstart (by simp)
  | @woken p ret side hp _ _ hres hrun' _ =>
      cases side with
      | req =>
          obtain ⟨hevRsp, hrsp, -, -, -⟩ := resume_req_rsp p ret
          rw [hres] at hstart ⊢
          rw [hevRsp]
          exact hold hp (hrsp ▸ hstart) (by simp [hrun'])
      | rsp =>
          rw [hres] at hstart
          cases hpc : p.rsp <;> simp [Peer.resume, hpc] at hstart
          split at hstart <;> exact absurd hstart (by simp)
  | new hc hnew hh _ hin hexit =>
      have h₁ : (s.hub.ev.idMax + 1).toNat = s.hub.ev.idMax.toNat + 1 :=
        toNat_add_one (Nat.lt_of_succ_lt hw)
      have hne : s.hub.ev.idMax ≠ s.hub.ev.idMax + 1 := by
        intro heq
        rw [← heq] at h₁
        omega
      have hev : p'.evRsp = s.hub.ev.idMax + 1 := by
        rw [hnew]
        rfl
      have hqueue : s'.hub.queue =
          s.hub.queue ++ [(s.hub.ev.idMax, true), (s.hub.ev.idMax + 1, true)] := by
        apply Hub.queue_append h.matched.heard.queue
        · rw [hh]
        · rw [hh]
          simp [Events.newClient]
      rw [hev]
      refine ⟨by rw [hh]; exact hexit, s.hub.queue ++ [(s.hub.ev.idMax, true)], [], ?_, ?_⟩
      · rw [hqueue, List.append_assoc]
        rfl
      · intro b hb
        rw [List.mem_append, List.mem_singleton, Prod.mk.injEq] at hb
        rcases hb with hb | ⟨heq, -⟩
        · exact fresh_notMem h.matched (by rw [h₁]; omega) b hb
        · exact hne heq.symm

-- ============================================================================
-- The farewell of the request coroutine
-- ============================================================================

/-- The event that is dispatched says what the wait of its coroutine returns. -/
theorem wokenBy_ret (hs : Step s s') {x : Co} (hrun : s.hub.running = none)
    (hrun' : s'.hub.running = some x) {eid : EventId} {d : Bool}
    (hq : s.hub.queue = (eid, d) :: s'.hub.queue) {p p' : Peer} (hp : s.peers x.client = some p)
    (hp' : s'.peers x.client = some p') : p' = p.resume (if d then 0 else 1) x.side := by
  have hqueue : s'.hub.queue ≠ s.hub.queue := by
    intro heq
    have hlen := congrArg List.length hq
    rw [heq, List.length_cons] at hlen
    omega
  cases hs with
  | @wakeEvent eid₀ d₀ q x₀ p₀ _ hin hq₀ _ hp₀ _ =>
      obtain rfl : x₀ = x := Option.some.inj hrun'
      rw [Hub.queue, if_neg (by simp [hin]), hq₀, List.cons.injEq, Prod.mk.injEq] at hq
      obtain ⟨⟨-, rfl⟩, -⟩ := hq
      obtain rfl := Option.some.inj (hp₀.symm.trans hp)
      rw [setPeer_self] at hp'
      exact (Option.some.inj hp').symm
  | wakeIo _ _ _ _ _ _ => exact absurd rfl hqueue
  | req hrun₀ _ _ => exact absurd (hrun.symm.trans hrun₀) (by simp)
  | rsp hrun₀ _ _ => exact absurd (hrun.symm.trans hrun₀) (by simp)
  | _ => exact absurd (hrun.symm.trans hrun') (by simp)

/-- A response coroutine that is woken by the farewell leaves. -/
theorem farewell_heard (h : Farewell s) (hg : Heeded s s') (hs : Step s s') {c : ClientId}
    {p p' : Peer} (hp : s.peers c = some p) (hp' : s'.peers c = some p')
    (hrun : s.hub.running = none) (hrun' : s'.hub.running = some ⟨c, .rsp⟩)
    (hq : s.hub.queue = (p.evRsp, false) :: s'.hub.queue) :
    p'.rsp = .exit ∨ p'.rsp = .finished := by
  have hret := wokenBy_ret hs hrun hrun' hq hp hp'
  have hpark : p.RspParked := h.matched.park.parked ⟨c, .rsp⟩ p (by simp [hrun]) hp
  cases hpc : p.rsp with
  | empty => simp [hret, Peer.resume, hpc]
  | finished => simp [hret, Peer.resume, hpc]
  | start =>
      -- another event of its id is in front
      obtain ⟨-, q₁, q₂, hq', hnot⟩ := h.begins c p hp hpc
      rw [hq] at hq'
      cases q₁ with
      | nil => simp at hq'
      | cons e q₁ =>
          simp only [List.cons_append, List.cons.injEq] at hq'
          exact absurd (by simp [← hq'.1]) (hnot false)
  | serve =>
      simp only [Peer.RspParked, hpc] at hpark
      obtain ⟨fd, dir, hwait⟩ := hpark
      exact absurd hwait (hg.heard c p fd dir hp hrun hrun' hq)
  | loop => simp [Peer.RspParked, hpc] at hpark
  | exit => simp [Peer.RspParked, hpc] at hpark

/-- When the request coroutine is in its last wait, its farewell is still to come or the
    response coroutine leaves. -/
theorem told_step (h : Farewell s) (hg : Heeded s s') (hs : Step s s') {c : ClientId} {p' : Peer}
    (hp' : s'.peers c = some p') (hfinal : p'.req = .final) (hexit : p'.rsp ≠ .exit)
    (hfin : p'.rsp ≠ .finished) : s'.hub.exited = false ∧ (p'.evRsp, false) ∈ s'.hub.queue := by
  cases peer_case hs hp' with
  | same hp hrun _ => exact told_kept h hs hp hfin (hrun .rsp) (h.told c p' hp hfinal hexit hfin)
  | @req p h' hp hrun hr hh =>
      have hevRsp := hr.rsp_eq.1
      cases hr with
      | final _ _ =>
          refine ⟨not_exited_step h.matched.heard.exit hs (by simp [hrun]), ?_⟩
          rw [hh]
          exact Hub.mem_queue_of_post h.matched.heard.queue rfl rfl
      | go _ hpos _ =>
          rcases hpos with hpos | hpos <;> exact absurd (hpos.symm.trans hfinal) (by simp)
      | block hpc _ => exact absurd (hpc.symm.trans hfinal) (by simp)
      | noLookup hpc => exact absurd (hpc.symm.trans hfinal) (by simp)
      | append hpc _ _ => exact absurd (hpc.symm.trans hfinal) (by simp)
      | _ => exact absurd hfinal (by simp)
  | @rsp p h' hp hrun hr hh =>
      have hfinal₀ : p.req = .final := hr.req_eq.2.1 ▸ hfinal
      have hold (hexit₀ : p.rsp ≠ .exit) (hfin₀ : p.rsp ≠ .finished) :=
        told_kept h hs hp hfin₀ (fun _ => hrun) (h.told c p hp hfinal₀ hexit₀ hfin₀)
      cases hr with
      | stuck => exact hold hexit hfin
      | leave _ => exact absurd rfl hexit
      | exit _ _ => exact absurd rfl hfin
      | sleep hpc _ => exact hold (by simp [hpc]) (by simp [hpc])
      | serve hpc _ => exact hold (by simp [hpc]) (by simp [hpc])
      | go hpc _ => exact hold (by simp [hpc]) (by simp [hpc])
      | block hpc _ => exact hold (by simp [hpc]) (by simp [hpc])
      | served hpc _ => exact hold (by simp [hpc]) (by simp [hpc])
  | @woken p ret side hp hrun _ hres hrun' _ =>
      cases side with
      | req => exact absurd (hres ▸ hfinal) (resume_req_ne_final p ret)
      | rsp =>
          obtain ⟨hevReq, hreq, -, -⟩ := resume_rsp_req p ret
          have hfinal₀ : p.req = .final := hreq ▸ hres ▸ hfinal
          have hexit₀ : p.rsp ≠ .exit := by
            intro hpc
            exact hexit (by simp [hres, Peer.resume, hpc])
          have hfin₀ : p.rsp ≠ .finished := by
            intro hpc
            exact hfin (by simp [hres, Peer.resume, hpc])
          obtain ⟨hx, he⟩ := h.told c p hp hfinal₀ hexit₀ hfin₀
          have hev : p'.evRsp = p.evRsp := by rw [hres, (sameIds_resume p ret .rsp).evRsp]
          have hh := h.matched.heard.rspHandler c p hp hx hfin₀
          have hx' : s'.hub.exited = false := by
            rcases exited_step hs hx with hx' | ⟨hnil, -⟩
            · exact hx'
            · rw [hnil] at he
              exact absurd he List.not_mem_nil
          rw [hev]
          refine ⟨hx', ?_⟩
          cases (queue_step h.matched.heard.queue hs).1 with
          | keep es hq =>
              rw [hq]
              exact List.mem_append_left es he
          | wake hq _ _ _ =>
              rw [hq] at he
              rcases List.mem_cons.mp he with rfl | he
              · rcases farewell_heard h hg hs hp hp' hrun hrun' hq with hpc | hpc
                · exact absurd hpc hexit
                · exact absurd hpc hfin
              · exact he
          | drop hq hnone =>
              rw [hq] at he
              rcases List.mem_cons.mp he with rfl | he
              · exact absurd (hnone.symm.trans hh) (by simp)
              · exact he
  | new _ hnew _ _ _ _ => simp [hnew, Peer.new] at hfinal

theorem farewell_step (h : Farewell s) (hw : NoWrap s) (hg : Heeded s s') (hs : Step s s') :
    Farewell s' where
  matched := reqMatched_step h.matched hw hs
  blocked := fun _ _ => reqBlocked_step h hs
  gone := fun _ _ => gone_step h hg hs
  begins := fun _ _ => begins_step h hw hs
  told := fun _ _ => told_step h hg hs

end Notify
end HttpProxy
