/-
  HttpProxy.Notify.Matched

  Wake-ups match waits.  A request coroutine has no more tokens than it waits
  for (`Peer.due`), so no event reaches it while it waits for I/O.  A response
  coroutine can have any number of notices, and it is spared them during I/O only
  in runs where it does not block with a notice in the queue and none is posted
  while it is blocked (`Undisturbed`).
-/

import HttpProxy.Notify.Tokens

namespace HttpProxy
namespace Notify

variable {s s' : State}

/-- How many events a request coroutine may still get for its own id. -/
def Peer.due (p : Peer) : Nat :=
  match p.req with
  | .start => 1
  | .final => if p.rsp = .finished then 1 else 0
  | _ => 0

/-- The coroutine `eid` belongs to has not returned. -/
def Live (s : State) (eid : EventId) (x : Co) : Prop :=
  ∃ p, s.peers x.client = some p ∧ p.Owns eid x.side ∧ p.isFinished x.side = false

/-- The request coroutines are woken only by what they wait for. -/
structure ReqMatched (s : State) : Prop where
  heard : Heard s
  park : ParkOk s
  table : TableOk s.hub.table
  nodup : s.hub.pend.Nodup
  registered : ∀ fd d c, Registered s.hub.table fd d ⟨c, .req⟩ → Waits s ⟨c, .req⟩ (.io fd d)
  pend : ∀ fd d c, (fd, d, ⟨c, .req⟩) ∈ s.hub.pend → Waits s ⟨c, .req⟩ (.io fd d)
  disjoint : ∀ fd d c, (fd, d, ⟨c, .req⟩) ∈ s.hub.pend →
    ¬Registered s.hub.table fd d ⟨c, .req⟩
  /-- a response coroutine that is registered, perhaps no longer waiting, has begun -/
  begun : ∀ fd d c, Registered s.hub.table fd d ⟨c, .rsp⟩ ∨ (fd, d, ⟨c, .rsp⟩) ∈ s.hub.pend →
    ∃ p, s.peers c = some p ∧ p.rsp ≠ .start
  fresh : ∀ eid, s.hub.ev.idMax.toNat ≤ eid.toNat → s.hub.tok eid = 0
  live : ∀ eid x, s.hub.ev.handlers eid = some x → Live s eid x
  blocked : ∀ c p, s.peers c = some p → p.reqBlocked = true → p.req = .start ∨ p.req = .final
  due : ∀ c p, s.peers c = some p → s.hub.tok p.evReq ≤ p.due
  dns : ∀ c p eid, s.peers c = some p → p.req = .dns eid → s.hub.tok eid ≤ 1
  /-- the first event of a new client is for its request coroutine -/
  start : ∀ c p, s.peers c = some p → p.req = .start →
    s.hub.exited = false ∧ p.rsp = .start ∧ ∃ q₁ q₂, s.hub.queue = q₁ ++ (p.evReq, true) :: q₂ ∧
      ∀ b, (p.evRsp, b) ∉ q₁

structure Matched (s : State) : Prop where
  heard : Heard s
  park : ParkOk s
  io : IoOk s
  fresh : ∀ eid, s.hub.ev.idMax.toNat ≤ eid.toNat → s.hub.tok eid = 0
  lookups : ∀ eid, eid ∈ s.hub.flight ∨ s.hub.sigPending = some eid →
    ∀ c p, s.peers c = some p → eid ≠ p.evRsp
  live : ∀ eid x, s.hub.ev.handlers eid = some x → Live s eid x
  blocked : ∀ c p, s.peers c = some p → p.reqBlocked = true → p.req = .start ∨ p.req = .final
  due : ∀ c p, s.peers c = some p → s.hub.tok p.evReq ≤ p.due
  dns : ∀ c p eid, s.peers c = some p → p.req = .dns eid → s.hub.tok eid ≤ 1
  /-- the first event of a new client is for its request coroutine -/
  start : ∀ c p, s.peers c = some p → p.req = .start →
    s.hub.exited = false ∧ p.rsp = .start ∧ ∃ q₁ q₂, s.hub.queue = q₁ ++ (p.evReq, true) :: q₂ ∧
      ∀ b, (p.evRsp, b) ∉ q₁
  quiet : ∀ c p fd d b, s.peers c = some p → p.rspWait = some (.io fd d) →
    (p.evRsp, b) ∉ s.hub.queue

/-- A step does not get a notice to a response coroutine that waits for I/O. -/
structure Undisturbed (s s' : State) : Prop where
  block : ∀ c p p' fd d b, s.hub.running = some ⟨c, .rsp⟩ → s.peers c = some p →
    s'.peers c = some p' → p'.rspWait = some (.io fd d) → (p.evRsp, b) ∉ s.hub.queue
  post : ∀ c p fd d b, s.hub.running = some ⟨c, .req⟩ → s.peers c = some p →
    p.rspWait = some (.io fd d) → (p.evRsp, b) ∈ s'.hub.queue → (p.evRsp, b) ∈ s.hub.queue

/-- A response coroutine that waits for I/O has begun. -/
theorem begun_of_waits (hpark : ParkOk s) {c : ClientId} {fd : Fd} {d : Dir}
    (h : Waits s ⟨c, .rsp⟩ (.io fd d)) : ∃ p, s.peers c = some p ∧ p.rsp ≠ .start := by
  have hrun := h.not_running hpark
  obtain ⟨p, hp, hwait⟩ := h
  refine ⟨p, hp, fun hstart => ?_⟩
  have hparked := hpark.parked ⟨c, .rsp⟩ p hrun hp
  simp only [Peer.Parked, Peer.RspParked, hstart] at hparked
  exact absurd (hparked.symm.trans hwait) (by simp)

theorem Matched.req (h : Matched s) : ReqMatched s where
  heard := h.heard
  park := h.park
  table := h.io.table
  nodup := h.io.nodup
  registered := fun fd d c => h.io.registered fd d ⟨c, .req⟩
  pend := fun fd d c => h.io.pend fd d ⟨c, .req⟩
  disjoint := fun fd d c => h.io.disjoint fd d ⟨c, .req⟩
  begun := fun fd d c hx => begun_of_waits h.park
    (hx.elim (h.io.registered fd d ⟨c, .rsp⟩) (h.io.pend fd d ⟨c, .rsp⟩))
  fresh := h.fresh
  live := h.live
  blocked := h.blocked
  due := h.due
  dns := h.dns
  start := h.start

/-- An event about to be dispatched to a request coroutine is awaited. -/
theorem ReqMatched.eventOk (h : ReqMatched s) (hrun : s.hub.running = none)
    (hin : s.hub.inEvent = false) {eid : EventId} {d : Bool} {q : List (EventId × Bool)}
    {c : ClientId} (hq : s.hub.ev.queue = (eid, d) :: q)
    (hh : s.hub.ev.handlers eid = some ⟨c, .req⟩) : Waits s ⟨c, .req⟩ (.event eid) := by
  have hmem : (eid, d) ∈ s.hub.queue := by
    rw [Hub.queue, hin, hq]
    exact List.mem_cons_self
  have htok := Hub.mem_queue_of_tok hmem
  obtain ⟨p, hp, howns, -⟩ := h.live eid ⟨c, .req⟩ hh
  have hpark := h.park.parked ⟨c, .req⟩ p (by simp [hrun]) hp
  refine ⟨p, hp, ?_⟩
  show p.reqWait = some (.event eid)
  rcases howns with rfl | hdns | hres
  · have hdue := h.due c p hp
    cases hreq : p.req with
    | start => simpa [Peer.Parked, Peer.ReqParked, hreq] using hpark
    | final => simpa [Peer.Parked, Peer.ReqParked, hreq] using hpark
    | _ =>
        simp only [Peer.due, hreq] at hdue
        omega
  · simpa [Peer.Parked, Peer.ReqParked, hdns] using hpark
  · simp [Peer.Parked, Peer.ReqParked, hres] at hpark

/-- The event about to be dispatched is awaited. -/
theorem Matched.eventOk (h : Matched s) : EventOk s := by
  intro hrun hin eid d q x hq hh
  obtain ⟨c, side⟩ := x
  cases side with
  | req => exact h.req.eventOk hrun hin hq hh
  | rsp =>
      have hmem : (eid, d) ∈ s.hub.queue := by
        rw [Hub.queue, hin, hq]
        exact List.mem_cons_self
      obtain ⟨p, hp, howns, hfin⟩ := h.live eid ⟨c, .rsp⟩ hh
      have hpark := h.park.parked ⟨c, .rsp⟩ p (by simp [hrun]) hp
      have heid : eid = p.evRsp := howns
      subst heid
      refine ⟨p, hp, ?_⟩
      show p.rspWait = some (.event p.evRsp)
      cases hrsp : p.rsp with
      | start => simpa [Peer.Parked, Peer.RspParked, hrsp] using hpark
      | empty => simpa [Peer.Parked, Peer.RspParked, hrsp] using hpark
      | serve =>
          simp only [Peer.Parked, Peer.RspParked, hrsp] at hpark
          obtain ⟨fd, dir, hwait⟩ := hpark
          exact absurd hmem (h.quiet c p fd dir d hp hwait)
      | finished => simp [Peer.isFinished, hrsp] at hfin
      | loop => simp [Peer.Parked, Peer.RspParked, hrsp] at hpark
      | exit => simp [Peer.Parked, Peer.RspParked, hrsp] at hpark

-- ============================================================================
-- Owners of handlers
-- ============================================================================

/-- A handler has been there before, or belongs to a coroutine that now waits. -/
theorem handler_origin (hs : Step s s') {eid : EventId} {x : Co}
    (hh : s'.hub.ev.handlers eid = some x) :
    s.hub.ev.handlers eid = some x ∨ Live s' eid x := by
  cases hs with
  | @req c p p' h' hrun hp hr =>
      cases hr with
      | lookup _ =>
          by_cases heq : eid = s.hub.ev.idMax
          · simp only [heq, Events.eventSetHandler_fields, Function.update_self,
              Option.some.injEq] at hh
            subst hh
            exact .inr ⟨_, setPeer_self s c _, .inr (.inl (by rw [heq])), rfl⟩
          · simp only [Events.eventSetHandler_fields, Events.eventGetId_fields,
              Function.update_of_ne heq] at hh
            exact .inl hh
      | @resolved eid₀ _ =>
          by_cases heq : eid = eid₀
          · simp [heq] at hh
          · exact .inl (by simpa [Function.update_of_ne heq] using hh)
      | @append b _ _ _ _ => cases b <;> exact .inl hh
      | final _ _ =>
          by_cases heq : eid = p.evReq
          · simp only [heq, Events.eventSetHandler_fields, Function.update_self,
              Option.some.injEq] at hh
            subst hh
            exact .inr ⟨_, setPeer_self s c _, .inl heq, rfl⟩
          · simp only [Events.eventSetHandler_fields, Events.eventPost_fields,
              Function.update_of_ne heq] at hh
            exact .inl hh
      | cleanup _ _ =>
          by_cases heq : eid = p.evReq
          · simp [heq] at hh
          · exact .inl (by simpa [Function.update_of_ne heq] using hh)
      | _ => exact .inl hh
  | @rsp c p p' h' hrun hp hr =>
      cases hr with
      | sleep _ _ =>
          by_cases heq : eid = p.evRsp
          · simp only [heq, Events.eventSetHandler_fields, Function.update_self,
              Option.some.injEq] at hh
            subst hh
            exact .inr ⟨_, setPeer_self s c _, heq, rfl⟩
          · simp only [Events.eventSetHandler_fields, Function.update_of_ne heq] at hh
            exact .inl hh
      | exit _ _ =>
          by_cases heq : eid = p.evRsp
          · simp [heq] at hh
          · simp only [Events.eventFreeId_fields, Function.update_of_ne heq] at hh
            split at hh <;> exact .inl hh
      | _ => exact .inl hh
  | accept _ _ _ _ =>
      simp only [Events.newClient, Events.eventSetHandler_fields, Events.eventPost_fields,
        Events.eventGetId_fields] at hh
      by_cases heq : eid = s.hub.ev.idMax + 1
      · simp only [heq, Function.update_self, Option.some.injEq] at hh
        subst hh
        exact .inr ⟨Peer.new s.hub.ev, by simp, heq, rfl⟩
      · rw [Function.update_of_ne heq] at hh
        by_cases heq' : eid = s.hub.ev.idMax
        · simp only [heq', Function.update_self, Option.some.injEq] at hh
          subst hh
          exact .inr ⟨Peer.new s.hub.ev, by simp, .inl heq', rfl⟩
        · rw [Function.update_of_ne heq'] at hh
          exact .inl hh
  | exit _ _ _ => exact absurd hh (by simp)
  | _ => exact .inl hh

theorem isFinished_resume (p : Peer) (ret : Int) {side side' : Side}
    (hfin : p.isFinished side = false) : (p.resume ret side').isFinished side = false := by
  cases side with
  | req =>
      simp only [Peer.isFinished, decide_eq_false_iff_not] at hfin ⊢
      cases side' with
      | req => exact resume_req_ne_finished hfin
      | rsp => rwa [(resume_rsp_req p ret).2.1]
  | rsp =>
      simp only [Peer.isFinished, decide_eq_false_iff_not] at hfin ⊢
      cases side' with
      | req => rwa [(resume_req_rsp p ret).2.1]
      | rsp => exact resume_rsp_ne_finished hfin

theorem owns_resume {p : Peer} {eid : EventId} {side side' : Side} (ret : Int)
    (h : p.Owns eid side) : (p.resume ret side').Owns eid side := by
  cases side with
  | rsp => exact Eq.trans h (sameIds_resume p ret side').evRsp.symm
  | req =>
      have hev := (sameIds_resume p ret side').evReq
      refine h.imp (fun h => h.trans hev.symm) fun h => ?_
      cases side' with
      | rsp => exact h.imp (resume_rsp_req p ret).2.1.trans (resume_rsp_req p ret).2.1.trans
      | req =>
          rcases h with hreq | hreq
          · exact .inr (by simp [Peer.resume, hreq])
          · exact .inr (by simp [Peer.resume, hreq])

/-- An id with a handler keeps its owner. -/
theorem live_step (hids : IdsOk s) (hs : Step s s') {eid : EventId} {x : Co} (h : Live s eid x)
    (hh : s'.hub.ev.handlers eid = some x) : Live s' eid x := by
  obtain ⟨c, side⟩ := x
  obtain ⟨p, hp, howns, hfin⟩ := h
  obtain ⟨p', hp'⟩ := peers_step hs hp
  refine ⟨p', hp', ?_⟩
  have hsame {q : Peer} (hq : s.peers c = some q) : q = p := Option.some.inj (hq.symm.trans hp)
  cases peer_case hs hp' with
  | same hq _ _ =>
      rw [hsame hq]
      exact ⟨howns, hfin⟩
  | req hq hrun hr hh' =>
      obtain rfl := hsame hq
      rw [hh'] at hh
      cases side with
      | rsp =>
          obtain ⟨hev, hrsp, -, -⟩ := hr.rsp_eq
          exact ⟨Eq.trans howns hev.symm, by simpa [Peer.isFinished, hrsp] using hfin⟩
      | req =>
          simp only [Peer.Owns, Peer.HasDns] at howns ⊢
          simp only [Peer.isFinished, decide_eq_false_iff_not] at hfin ⊢
          cases hr with
          | cleanup hpc _ =>
              simp only [hpc, reduceCtorEq, or_self, or_false] at howns
              simp [howns] at hh
          | @resolved eid₀ hpc =>
              simp only [hpc, reduceCtorEq, false_or, ReqPos.resolved.injEq] at howns
              rcases howns with howns | rfl
              · exact ⟨.inl howns, by simp⟩
              · simp at hh
          | go hpc hpos _ =>
              simp only [hpc, reduceCtorEq, or_self, or_false] at howns
              rcases hpos with rfl | rfl <;> exact ⟨.inl howns, by simp⟩
          | block _ _ => exact ⟨howns, hfin⟩
          | noLookup _ => exact ⟨howns, hfin⟩
          | append _ _ _ => exact ⟨howns, hfin⟩
          | lookup hpc =>
              simp only [hpc, reduceCtorEq, or_self, or_false] at howns
              exact ⟨.inl howns, by simp⟩
          | skip hpc _ =>
              simp only [hpc, reduceCtorEq, or_self, or_false] at howns
              exact ⟨.inl howns, by simp⟩
          | final hpc _ =>
              simp only [hpc, reduceCtorEq, or_self, or_false] at howns
              exact ⟨.inl howns, by simp⟩
  | rsp hq hrun hr hh' =>
      obtain rfl := hsame hq
      rw [hh'] at hh
      cases side with
      | req =>
          obtain ⟨hev, hreq, -, -⟩ := hr.req_eq
          simp only [Peer.Owns, Peer.HasDns, Peer.isFinished, hev, hreq] at howns hfin ⊢
          exact ⟨howns, hfin⟩
      | rsp =>
          simp only [Peer.Owns] at howns ⊢
          simp only [Peer.isFinished, decide_eq_false_iff_not] at hfin ⊢
          cases hr with
          | exit _ _ => simp [howns] at hh
          | stuck => exact ⟨howns, hfin⟩
          | go _ _ => exact ⟨howns, hfin⟩
          | block _ _ => exact ⟨howns, hfin⟩
          | _ => exact ⟨howns, by simp⟩
  | woken hq _ _ hres _ _ =>
      obtain rfl := hsame hq
      rw [hres]
      exact ⟨owns_resume _ howns, isFinished_resume _ _ hfin⟩
  | new hc _ _ _ _ _ => exact absurd ((hids.fresh c (Nat.le_of_eq hc.symm)).symm.trans hp) (by simp)

-- ============================================================================
-- Tokens of the request coroutine
-- ============================================================================

/-- Only the farewell of the response coroutine adds a token to the ids of a
    request coroutine that has them already. -/
theorem tok_own (h : Heard s) (hw : NoWrap s) (hs : Step s s') {c : ClientId} {p : Peer}
    (hp : s.peers c = some p) {eid : EventId} (ho : p.Owns eid .req) :
    s'.hub.tok eid ≤ s.hub.tok eid ∨
      eid = p.evReq ∧ p.rsp = .exit ∧ p.reqBlocked = true ∧ s'.hub.tok eid ≤ s.hub.tok eid + 1 ∧
        ∃ p', s'.peers c = some p' ∧ p'.rsp = .finished := by
  have howns : Owns s eid ⟨c, .req⟩ := ⟨p, hp, ho⟩
  cases tok_step h.queue hw hs eid with
  | le hle => exact .inl hle
  | new hge _ _ =>
      have := h.ids.lt eid _ howns
      omega
  | @rsp c₀ p₀ hp₀ heid _ =>
      have := h.ids.unique eid ⟨c, .req⟩ ⟨c₀, .rsp⟩ howns ⟨p₀, hp₀, heid⟩
      exact absurd this (by simp)
  | @req c₀ p₀ p₀' hp₀ heid hrsp hb hp₀' hfin hle =>
      have := h.ids.unique eid ⟨c, .req⟩ ⟨c₀, .req⟩ howns ⟨p₀, hp₀, .inl heid⟩
      obtain rfl : c = c₀ := by simpa using this
      obtain rfl := Option.some.inj (hp₀.symm.trans hp)
      exact .inr ⟨heid, hrsp, hb, hle, p₀', hp₀', hfin⟩

/-- The event a request coroutine is woken by is used up. -/
theorem tok_woken (h : ReqMatched s) (hs : Step s s') {c : ClientId} {p : Peer}
    (hp : s.peers c = some p) (hrun : s.hub.running = none)
    (hrun' : s'.hub.running = some ⟨c, .req⟩) {eid : EventId}
    (hwait : p.reqWait = some (.event eid)) : s'.hub.tok eid + 1 = s.hub.tok eid := by
  have hw : Waits s ⟨c, .req⟩ (.event eid) := ⟨p, hp, hwait⟩
  cases wokenBy hs (by simp [hrun]) hrun' with
  | @event eid₀ _ _ _ hin hq hh hhub =>
      have heq := hw.unique (h.eventOk hrun hin hq hh)
      rw [Wait.event.injEq] at heq
      subst heq
      have htok : s'.hub.tok eid + (if eid = eid then 1 else 0) = s.hub.tok eid :=
        Hub.tok_dispatch hin hq (by rw [hhub]) (by rw [hhub]) (by rw [hhub]) (by rw [hhub]) eid
      simpa using htok
  | io hpend _ =>
      have heq := hw.unique (h.pend _ _ _ (hpend ▸ List.mem_cons_self))
      exact absurd heq (by simp)

theorem reqBlocked_start_or_final (h : ReqMatched s) (hs : Step s s') {c : ClientId} {p' : Peer}
    (hp' : s'.peers c = some p') (hb : p'.reqBlocked = true) :
    p'.req = .start ∨ p'.req = .final := by
  have hold {p : Peer} (hp : s.peers c = some p) (hb : p.reqBlocked = true)
      (hpc : p.req ≠ .start ∧ p.req ≠ .final) : p'.req = .start ∨ p'.req = .final := by
    rcases h.blocked c p hp hb with h | h
    · exact absurd h hpc.1
    · exact absurd h hpc.2
  cases peer_case hs hp' with
  | same hp _ _ => exact h.blocked c p' hp hb
  | req hp _ hr _ =>
      cases hr with
      | final _ _ => exact .inr rfl
      | go hpc _ _ => exact hold hp hb (by simp [hpc])
      | block hpc _ => exact hold hp hb (by simp [hpc])
      | lookup hpc => exact hold hp hb (by simp [hpc])
      | noLookup hpc => exact hold hp hb (by simp [hpc])
      | resolved hpc => exact hold hp hb (by simp [hpc])
      | append hpc _ _ => exact hold hp hb (by simp [hpc])
      | skip hpc _ => exact hold hp hb (by simp [hpc])
      | cleanup hpc _ => exact hold hp hb (by simp [hpc])
  | @rsp p _ hp _ hr _ =>
      obtain ⟨-, hreq, hb', -⟩ := hr.req_eq
      rw [hreq]
      exact h.blocked c p hp (hb'.symm.trans hb)
  | @woken p ret side hp _ _ hres _ _ =>
      cases side with
      | rsp =>
          obtain ⟨-, hreq, hb', -⟩ := resume_rsp_req p ret
          rw [hres] at hb ⊢
          rw [hreq]
          exact h.blocked c p hp (hb'.symm.trans hb)
      | req =>
          rw [hres] at hb
          cases hpc : p.req with
          | start => simp [Peer.resume, hpc] at hb
          | final => simp [Peer.resume, hpc] at hb
          | _ => exact hold hp (by simpa [Peer.resume, hpc] using hb) (by simp [hpc])
  | new _ hnew _ _ _ _ => exact .inl (by simp [hnew, Peer.new])

/-- A new id has at most the token it is created with. -/
theorem tok_new (h : ReqMatched s) (hw : NoWrap s) (hs : Step s s') {eid : EventId}
    (hge : s.hub.ev.idMax.toNat ≤ eid.toNat) : s'.hub.tok eid ≤ 1 := by
  have hzero := h.fresh eid hge
  cases tok_step h.heard.queue hw hs eid with
  | le hle => omega
  | new _ _ hle => omega
  | @rsp c p hp heid _ =>
      have hlt := h.heard.ids.lt eid ⟨c, .rsp⟩ ⟨p, hp, heid⟩
      omega
  | @req c p _ hp heid _ _ _ _ _ =>
      have hlt := h.heard.ids.lt eid ⟨c, .req⟩ ⟨p, hp, .inl heid⟩
      omega

theorem due_of_reqStep {c : ClientId} {p p' : Peer} {h h' : Hub} (hr : ReqStep c p h p' h') :
    p.due = 0 ∧ p'.evReq = p.evReq := by
  cases hr with
  | go hpc _ _ => exact ⟨by simp [Peer.due, hpc], rfl⟩
  | block hpc _ => exact ⟨by simp [Peer.due, hpc], rfl⟩
  | lookup hpc => exact ⟨by simp [Peer.due, hpc], rfl⟩
  | noLookup hpc => exact ⟨by simp [Peer.due, hpc], rfl⟩
  | resolved hpc => exact ⟨by simp [Peer.due, hpc], rfl⟩
  | append hpc _ _ => exact ⟨by simp [Peer.due, hpc], rfl⟩
  | skip hpc _ => exact ⟨by simp [Peer.due, hpc], rfl⟩
  | final hpc _ => exact ⟨by simp [Peer.due, hpc], rfl⟩
  | cleanup hpc _ => exact ⟨by simp [Peer.due, hpc], rfl⟩

theorem due_of_rspStep {c : ClientId} {p p' : Peer} {h h' : Hub} (hr : RspStep c p h p' h') :
    p.due ≤ p'.due := by
  have hreq := hr.req_eq.2.1
  by_cases hfin : p.rsp = .finished
  · cases hr with
    | stuck => exact Nat.le_refl _
    | go hpc _ => exact absurd (hpc.symm.trans hfin) (by simp)
    | block hpc _ => exact absurd (hpc.symm.trans hfin) (by simp)
    | leave hpc => exact absurd (hpc.symm.trans hfin) (by simp)
    | sleep hpc _ => exact absurd (hpc.symm.trans hfin) (by simp)
    | serve hpc _ => exact absurd (hpc.symm.trans hfin) (by simp)
    | served hpc _ => exact absurd (hpc.symm.trans hfin) (by simp)
    | exit hpc _ => exact absurd (hpc.symm.trans hfin) (by simp)
  · unfold Peer.due
    rw [hreq]
    cases p.req <;> simp [hfin]

theorem due_step (h : ReqMatched s) (hw : NoWrap s) (hs : Step s s') {c : ClientId} {p' : Peer}
    (hp' : s'.peers c = some p') : s'.hub.tok p'.evReq ≤ p'.due := by
  -- no farewell: the response coroutine is not the one that makes a step
  have hle {p : Peer} (hp : s.peers c = some p) (hrsp : p.rsp = .exit → p'.rsp ≠ .finished) :
      s'.hub.tok p.evReq ≤ s.hub.tok p.evReq := by
    rcases tok_own h.heard hw hs hp (.inl rfl) with hle | ⟨-, hexit, -, -, q, hq, hfin⟩
    · exact hle
    · obtain rfl := Option.some.inj (hq.symm.trans hp')
      exact absurd hfin (hrsp hexit)
  cases peer_case hs hp' with
  | same hp _ _ =>
      have hdue := h.due c p' hp
      have := hle hp (fun hexit => by simp [hexit])
      omega
  | req hp _ hr _ =>
      obtain ⟨hzero, hev⟩ := due_of_reqStep hr
      have hdue := h.due c _ hp
      have hrsp := hr.rsp_eq.2.1
      have := hle hp (fun hexit => by simp [hrsp, hexit])
      rw [hev]
      omega
  | @rsp p _ hp _ hr _ =>
      have hdue := h.due c p hp
      have hmono := due_of_rspStep hr
      obtain ⟨hev, hreq, -, -⟩ := hr.req_eq
      rw [hev]
      rcases tok_own h.heard hw hs hp (.inl rfl) with hle | ⟨-, hexit, hb, hle, q, hq, hfin⟩
      · omega
      · obtain rfl := Option.some.inj (hq.symm.trans hp')
        rcases h.blocked c p hp hb with hpc | hpc
        · have hrsp := (h.start c p hp hpc).2.1
          exact absurd (hexit.symm.trans hrsp) (by simp)
        · have h₀ : p.due = 0 := by simp [Peer.due, hpc, hexit]
          have h₁ : q.due = 1 := by simp [Peer.due, hreq, hpc, hfin]
          omega
  | @woken p ret side hp hrun hlive hres hrun' _ =>
      have hdue := h.due c p hp
      have hev : p'.evReq = p.evReq := hres ▸ (sameIds_resume p ret side).evReq
      rw [hev]
      cases side with
      | rsp =>
          have hne : p.rsp ≠ .finished := by simpa [Peer.isFinished] using hlive
          have hne' : p'.rsp ≠ .finished := hres ▸ resume_rsp_ne_finished hne
          have hreq : p'.req = p.req := hres ▸ (resume_rsp_req p ret).2.1
          have heq : p'.due = p.due := by
            unfold Peer.due
            rw [hreq]
            cases p.req <;> simp [hne, hne']
          have := hle hp (fun _ => hne')
          omega
      | req =>
          have hrsp : p'.rsp = p.rsp := hres ▸ (resume_req_rsp p ret).2.1
          have hmono := hle hp (fun hexit => by simp [hrsp, hexit])
          have hpark : p.ReqParked := h.park.parked ⟨c, .req⟩ p (by simp [hrun]) hp
          have hone : p.due ≤ 1 := by
            unfold Peer.due
            split
            · exact Nat.le_refl _
            · split <;> omega
            · omega
          cases hpc : p.req with
          | start =>
              simp only [Peer.ReqParked, hpc] at hpark
              have := tok_woken h hs hp hrun hrun' hpark
              omega
          | final =>
              simp only [Peer.ReqParked, hpc] at hpark
              have := tok_woken h hs hp hrun hrun' hpark
              omega
          | _ =>
              simp only [Peer.due, hpc] at hdue
              omega
  | new _ hnew _ _ _ _ =>
      have hone := tok_new h hw hs (Nat.le_refl s.hub.ev.idMax.toNat)
      rw [hnew]
      exact hone

theorem dns_step (h : ReqMatched s) (hw : NoWrap s) (hs : Step s s') {c : ClientId} {p' : Peer}
    {eid : EventId} (hp' : s'.peers c = some p') (hdns : p'.req = .dns eid) :
    s'.hub.tok eid ≤ 1 := by
  have hold {p : Peer} (hp : s.peers c = some p) (hreq : p.req = .dns eid) :
      s'.hub.tok eid ≤ 1 := by
    have hone := h.dns c p eid hp hreq
    rcases tok_own h.heard hw hs hp (.inr (.inl hreq)) with hle | ⟨heid, -⟩
    · omega
    · exact absurd heid (h.heard.ids.dns c p eid hp (.inl hreq))
  cases peer_case hs hp' with
  | same hp _ _ => exact hold hp hdns
  | req hp _ hr _ =>
      cases hr with
      | lookup _ =>
          simp only [ReqPos.dns.injEq] at hdns
          exact tok_new h hw hs (Nat.le_of_eq (by rw [hdns]))
      | noLookup _ => exact hold hp hdns
      | block _ _ => exact hold hp hdns
      | append _ _ _ => exact hold hp hdns
      | go _ hpos _ =>
          rcases hpos with hpos | hpos <;> exact absurd (hpos.symm.trans hdns) (by simp)
      | _ => exact absurd hdns (by simp)
  | rsp hp _ hr _ => exact hold hp (hr.req_eq.2.1.symm.trans hdns)
  | @woken p ret side hp _ _ hres _ _ =>
      cases side with
      | rsp => exact hold hp ((resume_rsp_req p ret).2.1.symm.trans (hres ▸ hdns))
      | req =>
          rw [hres] at hdns
          cases hpc : p.req <;> simp [Peer.resume, hpc] at hdns
  | new _ hnew _ _ _ _ => simp [hnew, Peer.new] at hdns

-- ============================================================================
-- Notices
-- ============================================================================

/-- Until a request coroutine has been started its response coroutine is not. -/
theorem start_step (h : ReqMatched s) (hw : NoWrap s) (hs : Step s s') {c : ClientId} {p' : Peer}
    (hp' : s'.peers c = some p') (hstart : p'.req = .start) :
    s'.hub.exited = false ∧ p'.rsp = .start ∧ ∃ q₁ q₂,
      s'.hub.queue = q₁ ++ (p'.evReq, true) :: q₂ ∧ ∀ b, (p'.evRsp, b) ∉ q₁ := by
  have hold {p : Peer} (hp : s.peers c = some p) (hreq : p.req = .start)
      (hrun : s'.hub.running = some ⟨c, .req⟩ → s.hub.running = some ⟨c, .req⟩) :
      s'.hub.exited = false ∧ ∃ q₁ q₂, s'.hub.queue = q₁ ++ (p.evReq, true) :: q₂ ∧
        ∀ b, (p.evRsp, b) ∉ q₁ := by
    obtain ⟨hexit, -, q₁, q₂, hq, hnot⟩ := h.start c p hp hreq
    have hh := h.heard.reqHandler c p hp hexit (by simp [hreq])
    have hexit' : s'.hub.exited = false := by
      rcases exited_step hs hexit with hx | ⟨hx, -⟩
      · exact hx
      · rw [hx] at hq
        exact absurd hq.symm (by simp)
    obtain ⟨q₁', q₂', hq', hsub⟩ := event_behind h.heard.queue hs (e := (p.evReq, true)) hh hrun hq
    exact ⟨hexit', q₁', q₂', hq', fun b hb => hnot b (hsub _ hb)⟩
  cases peer_case hs hp' with
  | same hp hrun _ =>
      obtain ⟨hexit', hq⟩ := hold hp hstart (hrun .req)
      exact ⟨hexit', (h.start c p' hp hstart).2.1, hq⟩
  | req hp _ hr _ =>
      cases hr with
      | go _ hpos _ =>
          rcases hpos with hpos | hpos <;> exact absurd (hpos.symm.trans hstart) (by simp)
      | block hpc _ => exact absurd (hpc.symm.trans hstart) (by simp)
      | noLookup hpc => exact absurd (hpc.symm.trans hstart) (by simp)
      | append hpc _ _ => exact absurd (hpc.symm.trans hstart) (by simp)
      | _ => exact absurd hstart (by simp)
  | @rsp p h' hp hrun hr hh =>
      have hrsp := (h.start c p hp (hr.req_eq.2.1.symm.trans hstart)).2.1
      cases hr with
      | stuck =>
          obtain ⟨hexit', hq⟩ := hold hp hstart (fun hc => by simp [hh, hrun] at hc)
          exact ⟨hexit', hrsp, hq⟩
      | go hpc _ => exact absurd (hpc.symm.trans hrsp) (by simp)
      | block hpc _ => exact absurd (hpc.symm.trans hrsp) (by simp)
      | leave hpc => exact absurd (hpc.symm.trans hrsp) (by simp)
      | sleep hpc _ => exact absurd (hpc.symm.trans hrsp) (by simp)
      | serve hpc _ => exact absurd (hpc.symm.trans hrsp) (by simp)
      | served hpc _ => exact absurd (hpc.symm.trans hrsp) (by simp)
      | exit hpc _ => exact absurd (hpc.symm.trans hrsp) (by simp)
  | @woken p ret side hp hrun _ hres hrun' _ =>
      cases side with
      | req =>
          rw [hres] at hstart
          cases hpc : p.req <;> simp [Peer.resume, hpc] at hstart
      | rsp =>
          have hreq : p.req = .start := (resume_rsp_req p ret).2.1.symm.trans (hres ▸ hstart)
          obtain ⟨-, hrsp, q₁, q₂, hq, hnot⟩ := h.start c p hp hreq
          -- its own event is still behind that of the request coroutine
          cases wokenBy hs (by simp [hrun]) hrun' with
          | @event eid d q _ hin hq' hh _ =>
              obtain ⟨q₀, hq₀, howns, -⟩ := h.live eid ⟨c, .rsp⟩ hh
              obtain rfl := Option.some.inj (hp.symm.trans hq₀)
              obtain rfl : eid = p.evRsp := howns
              have hqueue : s.hub.queue = (p.evRsp, d) :: q := by simp [Hub.queue, hin, hq']
              rw [hqueue] at hq
              cases q₁ with
              | nil =>
                  simp only [List.nil_append, List.cons.injEq, Prod.mk.injEq] at hq
                  have := h.heard.ids.unique p.evReq ⟨c, .req⟩ ⟨c, .rsp⟩ ⟨p, hp, .inl rfl⟩
                    ⟨p, hp, hq.1.1.symm⟩
                  exact absurd this (by simp)
              | cons e q₁ =>
                  simp only [List.cons_append, List.cons.injEq] at hq
                  exact absurd (by simp [← hq.1]) (hnot d)
          | io hpend _ =>
              obtain ⟨q₀, hq₀, hne⟩ := h.begun _ _ c (.inr (hpend ▸ List.mem_cons_self))
              obtain rfl := Option.some.inj (hp.symm.trans hq₀)
              exact absurd hrsp hne
  | new _ hnew hh _ hin hexit =>
      have hfresh : s.hub.tok (s.hub.ev.idMax + 1) = 0 := by
        refine h.fresh _ ?_
        rw [toNat_add_one (Nat.lt_of_succ_lt hw)]
        omega
      rw [hnew]
      refine ⟨by rw [hh]; exact hexit, rfl, s.hub.queue, [(s.hub.ev.idMax + 1, true)], ?_, ?_⟩
      · simp [hh, Hub.queue, hin, Events.newClient, Peer.new]
      · intro b hb
        have := Hub.mem_queue_of_tok hb
        exact absurd hfresh (Nat.ne_of_gt this)

/-- Only its own request coroutine posts notices for a response coroutine. -/
theorem notice_origin (h : Matched s) (hw : NoWrap s) (hs : Step s s') {c : ClientId} {p : Peer}
    (hp : s.peers c = some p) {b : Bool} (hmem : (p.evRsp, b) ∈ s'.hub.queue) :
    (p.evRsp, b) ∈ s.hub.queue ∨ s.hub.running = some ⟨c, .req⟩ := by
  rcases queue_origin h.heard.queue hw hs hmem with hold | hpost
  · exact .inl hold
  · have howns : Owns s p.evRsp ⟨c, .rsp⟩ := ⟨p, hp, rfl⟩
    cases hpost with
    | @req c₀ p₀ hrun hp₀ heid =>
        have := h.heard.ids.unique p.evRsp ⟨c, .rsp⟩ ⟨c₀, .rsp⟩ howns ⟨p₀, hp₀, heid⟩
        obtain rfl : c = c₀ := by simpa using this
        exact .inr hrun
    | @rsp c₀ p₀ _ hp₀ heid =>
        have := h.heard.ids.unique p.evRsp ⟨c, .rsp⟩ ⟨c₀, .req⟩ howns ⟨p₀, hp₀, .inl heid⟩
        exact absurd this (by simp)
    | accept hge =>
        have hlt := h.heard.ids.lt p.evRsp _ howns
        exact absurd hge (Nat.not_le.mpr hlt)
    | dns hsig => exact absurd rfl (h.lookups p.evRsp (.inr hsig) c p hp)

/-- A response coroutine that waits for I/O is spared its notices. -/
theorem quiet_step (h : Matched s) (hw : NoWrap s) (hu : Undisturbed s s') (hs : Step s s')
    {c : ClientId} {p' : Peer} {fd : Fd} {d : Dir} {b : Bool} (hp' : s'.peers c = some p')
    (hwait : p'.rspWait = some (.io fd d)) : (p'.evRsp, b) ∉ s'.hub.queue := by
  have hold {p : Peer} (hp : s.peers c = some p) (hev : p'.evRsp = p.evRsp)
      (hwait : p.rspWait = some (.io fd d)) : (p'.evRsp, b) ∉ s'.hub.queue := by
    rw [hev]
    intro hmem
    have hquiet := h.quiet c p fd d b hp hwait
    rcases notice_origin h hw hs hp hmem with hmem' | hrun
    · exact hquiet hmem'
    · exact hquiet (hu.post c p fd d b hrun hp hwait hmem)
  cases peer_case hs hp' with
  | same hp _ _ => exact hold hp rfl hwait
  | req hp _ hr _ => exact hold hp hr.rsp_eq.1 (hr.rsp_eq.2.2.2.symm.trans hwait)
  | @rsp p h' hp hrun hr hh =>
      have hnone : p.rspWait = none := h.park.running ⟨c, .rsp⟩ p hrun hp
      have hblock := hu.block c p p' fd d b hrun hp hp' hwait
      rw [hh]
      cases hr with
      | block _ _ => exact hblock
      | sleep _ _ => exact absurd hwait (by simp)
      | _ => exact absurd (hnone.symm.trans hwait) (by simp)
  | @woken p ret side hp _ _ hres _ _ =>
      cases side with
      | req =>
          obtain ⟨hev, -, -, hw', -⟩ := resume_req_rsp p ret
          exact hold hp (hres ▸ hev) (hw'.symm.trans (hres ▸ hwait))
      | rsp =>
          have hnone : p'.rspWait = none := hres ▸ wait_resume p ret .rsp
          exact absurd (hnone.symm.trans hwait) (by simp)
  | new _ hnew _ _ _ _ => simp [hnew, Peer.new] at hwait

theorem fresh_tok_step (h : ReqMatched s) (hw : NoWrap s) (hs : Step s s') {eid : EventId}
    (hge : s'.hub.ev.idMax.toNat ≤ eid.toNat) : s'.hub.tok eid = 0 := by
  have hmono := idMax_step hw hs
  have hzero := h.fresh eid (Nat.le_trans hmono hge)
  cases tok_step h.heard.queue hw hs eid with
  | le hle => omega
  | new _ hlt _ => omega
  | @rsp c p hp heid _ =>
      have hlt := h.heard.ids.lt eid ⟨c, .rsp⟩ ⟨p, hp, heid⟩
      omega
  | @req c p _ hp heid _ _ _ _ _ =>
      have hlt := h.heard.ids.lt eid ⟨c, .req⟩ ⟨p, hp, .inl heid⟩
      omega

/-- The ids of lookups under way. -/
theorem lookup_origin (hs : Step s s') {eid : EventId}
    (he : eid ∈ s'.hub.flight ∨ s'.hub.sigPending = some eid) :
    (eid ∈ s.hub.flight ∨ s.hub.sigPending = some eid) ∨ eid = s.hub.ev.idMax := by
  cases hs with
  | req _ _ hr =>
      cases hr with
      | lookup _ =>
          rcases he with he | he
          · rcases List.mem_append.mp he with he | he
            · exact .inl (.inl he)
            · exact .inr (List.mem_singleton.mp he)
          · exact .inl (.inr he)
      | _ => exact .inl he
  | rsp _ _ hr => cases hr <;> exact .inl he
  | dnsRead _ _ _ => exact .inl (he.imp_right fun h => absurd h (by simp))
  | @dnsDone eid₀ hmem =>
      rcases he with he | he
      · exact .inl (.inl (List.mem_of_mem_erase he))
      · cases hsig : s.hub.sigPending with
        | none =>
            simp only [hsig, Option.getD_none, Option.some.injEq] at he
            exact .inl (.inl (he ▸ hmem))
        | some sig =>
            simp only [hsig, Option.getD_some] at he
            exact .inl (.inr he)
  | _ => exact .inl he

theorem lookups_step (h : Matched s) (hw : NoWrap s) (hs : Step s s') {eid : EventId}
    (he : eid ∈ s'.hub.flight ∨ s'.hub.sigPending = some eid) {c : ClientId} {p' : Peer}
    (hp' : s'.peers c = some p') : eid ≠ p'.evRsp := by
  have hpos (he : eid ∈ s.hub.flight ∨ s.hub.sigPending = some eid) : 0 < s.hub.tok eid := by
    unfold Hub.tok
    rcases he with he | he
    · have := List.count_pos_iff.mpr he
      omega
    · rw [if_pos he]
      omega
  cases peer_step hs hp' with
  | @same p hp hsame =>
      rw [hsame.evRsp]
      rcases lookup_origin hs he with he | rfl
      · exact h.lookups eid he c p hp
      · intro heq
        have := h.heard.ids.lt _ ⟨c, .rsp⟩ ⟨p, hp, heq⟩
        omega
  | @lookup p hp _ hev _ _ _ =>
      rw [hev]
      rcases lookup_origin hs he with he | rfl
      · exact h.lookups eid he c p hp
      · intro heq
        have := h.heard.ids.lt _ ⟨c, .rsp⟩ ⟨p, hp, heq⟩
        omega
  | new _ hnew _ =>
      have h₁ : (s.hub.ev.idMax + 1).toNat = s.hub.ev.idMax.toNat + 1 :=
        toNat_add_one (Nat.lt_of_succ_lt hw)
      have hev : p'.evRsp = s.hub.ev.idMax + 1 := by rw [hnew]; rfl
      rw [hev]
      rintro rfl
      rcases lookup_origin hs he with he | he
      · have hzero := h.fresh (s.hub.ev.idMax + 1) (by omega)
        have := hpos he
        omega
      · have := congrArg UInt32.toNat he
        omega

theorem matched_step (h : Matched s) (hw : NoWrap s) (hu : Undisturbed s s') (hs : Step s s') :
    Matched s' where
  heard := heard_step h.heard hw hs
  park := parkOk_step h.park hs
  io := ioOk_step h.heard.ids h.park h.eventOk h.io hs
  fresh := fun _ => fresh_tok_step h.req hw hs
  lookups := fun _ he _ _ => lookups_step h hw hs he
  live := fun eid x hh => by
    rcases handler_origin hs hh with hold | hnew
    · exact live_step h.heard.ids hs (h.live eid x hold) hh
    · exact hnew
  blocked := fun _ _ => reqBlocked_start_or_final h.req hs
  due := fun _ _ => due_step h.req hw hs
  dns := fun _ _ _ => dns_step h.req hw hs
  start := fun _ _ => start_step h.req hw hs
  quiet := fun _ _ _ _ _ => quiet_step h hw hu hs

-- ============================================================================
-- Request coroutines are woken by what they wait for
-- ============================================================================

/-- A response coroutine that has begun does not begin again. -/
theorem begun_step (hids : IdsOk s) (hs : Step s s') {c : ClientId}
    (h : ∃ p, s.peers c = some p ∧ p.rsp ≠ .start) : ∃ p, s'.peers c = some p ∧ p.rsp ≠ .start := by
  obtain ⟨p, hp, hne⟩ := h
  obtain ⟨p', hp'⟩ := peers_step hs hp
  refine ⟨p', hp', ?_⟩
  have hsame {q : Peer} (hq : s.peers c = some q) : q.rsp ≠ .start := by
    rwa [Option.some.inj (hq.symm.trans hp)]
  cases peer_case hs hp' with
  | same hq _ _ => exact hsame hq
  | req hq _ hr _ => exact hr.rsp_eq.2.1 ▸ hsame hq
  | rsp hq _ hr _ =>
      have hold := hsame hq
      cases hr with
      | stuck => exact hold
      | go _ _ => exact hold
      | block _ _ => exact hold
      | _ => simp
  | @woken q ret side hq _ _ hres _ _ =>
      have hold := hsame hq
      rw [hres]
      cases side with
      | req => exact (resume_req_rsp q ret).2.1 ▸ hold
      | rsp =>
          cases hpc : q.rsp with
          | start => exact absurd hpc hold
          | empty =>
              simp only [Peer.resume, hpc]
              split <;> simp
          | _ => simp [Peer.resume, hpc]
  | new hc _ _ _ _ _ => exact absurd ((hids.fresh c (Nat.le_of_eq hc.symm)).symm.trans hp) (by simp)

theorem reqMatched_step (h : ReqMatched s) (hw : NoWrap s) (hs : Step s s') : ReqMatched s' := by
  have hids := h.heard.ids
  have hkeep {c : ClientId} {fd : Fd} {d : Dir} : Waits s ⟨c, .req⟩ (.io fd d) →
      s.hub.pend ≠ (fd, d, ⟨c, .req⟩) :: s'.hub.pend → Waits s' ⟨c, .req⟩ (.io fd d) :=
    waits_io_step hids h.park hs (fun hrun hin _ _ _ => h.eventOk hrun hin)
      (fun fd d => h.pend fd d c)
  have hreg : ∀ fd d c, Registered s.hub.table fd d ⟨c, .req⟩ → Waits s' ⟨c, .req⟩ (.io fd d) := by
    intro fd d c hx
    refine hkeep (h.registered fd d c hx) fun hcall => ?_
    exact h.disjoint fd d c (by simp [hcall]) hx
  refine
    { heard := heard_step h.heard hw hs
      park := parkOk_step h.park hs
      table := table_step h.table hs
      nodup := ?_
      registered := ?_
      pend := ?_
      disjoint := ?_
      begun := ?_
      fresh := fun _ => fresh_tok_step h hw hs
      live := ?_
      blocked := fun _ _ => reqBlocked_start_or_final h hs
      due := fun _ _ => due_step h hw hs
      dns := fun _ _ _ => dns_step h hw hs
      start := fun _ _ => start_step h hw hs }
  · cases pend_step h.table hs with
    | keep hpend => exact hpend ▸ h.nodup
    | call hpend _ =>
        have hnd := h.nodup
        rw [hpend] at hnd
        exact (List.nodup_cons.mp hnd).2
    | take _ _ hnd _ => exact hnd
  · intro fd d c hx
    rcases registered_step hs hx with hx | ⟨-, -, hw⟩
    · exact hreg fd d c hx
    · exact hw
  · intro fd d c hx
    cases pend_step h.table hs with
    | keep hpend =>
        rw [hpend] at hx
        refine hkeep (h.pend fd d c hx) fun hcall => ?_
        have hlen := congrArg List.length hcall
        rw [hpend, List.length_cons] at hlen
        omega
    | @call e hpend _ =>
        have hnd := h.nodup
        rw [hpend, List.nodup_cons] at hnd
        refine hkeep (h.pend fd d c (by simp [hpend, hx])) fun hcall => ?_
        rw [hpend, List.cons_eq_cons] at hcall
        exact hnd.1 (hcall.1 ▸ hx)
    | take _ _ _ hmem => exact hreg fd d c (hmem fd d _ hx).1
  · intro fd d c hx hr
    cases pend_step h.table hs with
    | keep hpend =>
        rw [hpend] at hx
        rcases registered_step hs hr with hr | ⟨hrun, -, -⟩
        · exact h.disjoint fd d c hx hr
        · exact (h.pend fd d c hx).not_running h.park hrun
    | call hpend htable =>
        rw [htable] at hr
        exact h.disjoint fd d c (by simp [hpend, hx]) hr
    | take _ _ _ hmem => exact (hmem fd d _ hx).2 hr
  · intro fd d c hx
    rcases hx with hx | hx
    · rcases registered_step hs hx with hx | ⟨-, -, hw⟩
      · exact begun_step hids hs (h.begun fd d c (.inl hx))
      · exact begun_of_waits (parkOk_step h.park hs) hw
    · refine begun_step hids hs ?_
      cases pend_step h.table hs with
      | keep hpend => exact h.begun fd d c (.inr (hpend ▸ hx))
      | call hpend _ => exact h.begun fd d c (.inr (by simp [hpend, hx]))
      | take _ _ _ hmem => exact h.begun fd d c (.inl (hmem fd d _ hx).1)
  · intro eid x hh
    rcases handler_origin hs hh with hold | hnew
    · exact live_step hids hs (h.live eid x hold) hh
    · exact hnew

end Notify
end HttpProxy
