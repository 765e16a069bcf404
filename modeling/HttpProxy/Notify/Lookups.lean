/-
  HttpProxy.Notify.Lookups

  The completions of DNS lookups.  A lookup that is under way is among those handed to
  `getaddrinfo_a`, or its signal is pending, or its event waits to be dispatched
  (`Hub.Pending`), and its coroutine is registered for that event.

  There is one pending instance of SIGUSR1 at most, so a lookup that completes while
  the signal of another is pending leaves no trace (`lookup_lost_reachable`).
-/

import HttpProxy.Notify.Proxy

namespace HttpProxy
namespace Notify

variable {s s' : State} {eid : EventId}

-- ============================================================================
-- The protocol
-- ============================================================================

/-- A wake-up for `eid` is on its way. -/
def Hub.Pending (h : Hub) (eid : EventId) : Prop :=
  eid ∈ h.flight ∨ h.sigPending = some eid ∨ ∃ d, (eid, d) ∈ h.queue

/-- Every lookup under way has its own wake-up, which will reach its coroutine. -/
structure LookupsKept (s : State) : Prop where
  heard : Heard s
  handler : ∀ c p eid, s.peers c = some p → s.hub.exited = false → p.req = .dns eid →
    s.hub.ev.handlers eid = some ⟨c, .req⟩
  pending : ∀ c p eid, s.peers c = some p → p.req = .dns eid → s.hub.Pending eid

/-- No lookup completes while a signal is pending, and nothing is dispatched after the
    exit. -/
structure Separate (s s' : State) : Prop where
  done : s.hub.sigPending ≠ none → ∀ eid ∈ s.hub.flight, eid ∈ s'.hub.flight
  exited : s.hub.exited = true → s'.hub.queue = s.hub.queue

/-- A request coroutine adds its own lookup to those under way. -/
theorem ReqStep.flight {c : ClientId} {p p' : Peer} {h h' : Hub} (hr : ReqStep c p h p' h') :
    h'.flight = h.flight ∨ h'.flight = h.flight ++ [h.ev.idMax] := by
  cases hr with
  | lookup _ => exact .inr rfl
  | _ => exact .inl rfl

theorem RspStep.flight {c : ClientId} {p p' : Peer} {h h' : Hub} (hr : RspStep c p h p' h') :
    h'.flight = h.flight := by
  cases hr <;> rfl

/-- A wake-up stays as long as its event is not taken from the queue. -/
theorem pending_step (hq : QueueOk s) (hs : Step s s') (hsep : Separate s s')
    (hpend : s.hub.Pending eid)
    (hkept : ∀ d, (eid, d) ∈ s.hub.queue → (eid, d) ∈ s'.hub.queue) : s'.hub.Pending eid := by
  have hqueue : (∃ d, (eid, d) ∈ s.hub.queue) → s'.hub.Pending eid := by
    rintro ⟨d, hd⟩
    exact .inr (.inr ⟨d, hkept d hd⟩)
  have hsame (hf : ∀ eid ∈ s.hub.flight, eid ∈ s'.hub.flight)
      (hsig : s'.hub.sigPending = s.hub.sigPending) : s'.hub.Pending eid := by
    rcases hpend with hmem | hp | hd
    · exact .inl (hf eid hmem)
    · exact .inr (.inl (hsig.trans hp))
    · exact hqueue hd
  cases hs with
  | req _ _ hr =>
      cases hr with
      | lookup _ => exact hsame (fun _ hmem => List.mem_append_left _ hmem) rfl
      | _ => exact hsame (fun _ hmem => hmem) rfl
  | rsp _ _ hr => cases hr <;> exact hsame (fun _ hmem => hmem) rfl
  | @dnsRead eid₀ _ _ hsig =>
      rcases hpend with hmem | hp | hd
      · exact .inl hmem
      · -- the signal becomes the event of its lookup
        obtain rfl : eid₀ = eid := Option.some.inj (hsig.symm.trans hp)
        exact .inr (.inr ⟨false, Hub.mem_queue_of_post hq rfl rfl⟩)
      · exact hqueue hd
  | @dnsDone eid₀ hmem₀ =>
      by_cases hsig : s.hub.sigPending = none
      · rcases hpend with hmem | hp | hd
        · by_cases heq : eid = eid₀
          · refine .inr (.inl ?_)
            show some (s.hub.sigPending.getD eid₀) = some eid
            rw [hsig, heq, Option.getD_none]
          · exact .inl ((List.mem_erase_of_ne heq).mpr hmem)
        · rw [hsig] at hp
          exact absurd hp (by simp)
        · exact hqueue hd
      · obtain ⟨sig, hsome⟩ := Option.ne_none_iff_exists'.mp hsig
        exact hsame (hsep.done hsig) (by simp [hsome])
  | _ => exact hsame (fun _ hmem => hmem) rfl

/-- A coroutine that has not been woken keeps its wake-up. -/
theorem LookupsKept.stays (h : LookupsKept s) (hs : Step s s') (hsep : Separate s s')
    {c : ClientId} {p : Peer} (hp : s.peers c = some p) (hpc : p.req = .dns eid)
    (hrun : s'.hub.running = some ⟨c, .req⟩ → s.hub.running = some ⟨c, .req⟩) :
    s'.hub.Pending eid := by
  apply pending_step h.heard.queue hs hsep (h.pending c p eid hp hpc)
  intro d hd
  cases hexit : s.hub.exited with
  | true =>
      rw [hsep.exited hexit]
      exact hd
  | false => exact event_kept h.heard.queue hs (h.handler c p eid hp hexit hpc) hrun hd

theorem pending_of_step (h : LookupsKept s) (hs : Step s s') (hsep : Separate s s')
    {c : ClientId} {p' : Peer} (hp' : s'.peers c = some p') (hpc : p'.req = .dns eid) :
    s'.hub.Pending eid := by
  cases peer_case hs hp' with
  | same hp hrun _ => exact h.stays hs hsep hp hpc (hrun .req)
  | @req p h' hp hrun hr hh =>
      cases hr with
      | lookup _ =>
          obtain rfl : s.hub.ev.idMax = eid := ReqPos.dns.inj hpc
          rw [hh]
          exact .inl (List.mem_append_right _ List.mem_cons_self)
      | go _ hpos _ => rcases hpos with rfl | rfl <;> exact absurd hpc (by simp)
      | block hpc' _ => exact absurd (hpc'.symm.trans hpc) (by simp)
      | noLookup hpc' => exact absurd (hpc'.symm.trans hpc) (by simp)
      | append hpc' _ _ => exact absurd (hpc'.symm.trans hpc) (by simp)
      | _ => exact absurd hpc (by simp)
  | @rsp p h' hp hrun hr hh =>
      apply h.stays hs hsep hp (hr.req_eq.2.1.symm.trans hpc)
      intro hrun'
      rw [hh] at hrun'
      rcases hr.running with heq | heq <;> rw [heq] at hrun'
      · exact hrun'
      · exact absurd hrun' (by simp)
  | @woken p ret side hp _ _ hres hrun' _ =>
      cases side with
      | req =>
          rw [hres] at hpc
          cases hreq : p.req <;> simp [Peer.resume, hreq] at hpc
      | rsp =>
          rw [hres, (resume_rsp_req p ret).2.1] at hpc
          apply h.stays hs hsep hp hpc
          intro hreq
          rw [hrun'] at hreq
          exact absurd hreq (by simp)
  | new _ hnew _ _ _ _ => simp [hnew, Peer.new] at hpc

/-- A coroutine in a lookup stays registered for its event. -/
theorem dnsHandler_step (h : LookupsKept s) (hw : NoWrap s) (hs : Step s s') {c : ClientId}
    {p' : Peer} (hp' : s'.peers c = some p') (hexit' : s'.hub.exited = false)
    (hpc : p'.req = .dns eid) : s'.hub.ev.handlers eid = some ⟨c, .req⟩ := by
  have hids := h.heard.ids
  have hexit := exited_mono hs hexit'
  have howns {p : Peer} (hp : s.peers c = some p) (hreq : p.req = .dns eid) :
      Owns s eid ⟨c, .req⟩ :=
    ⟨p, hp, .inr (.inl hreq)⟩
  cases peer_case hs hp' with
  | same hp _ hev =>
      rw [handlers_same hids hw hs (howns hp hpc) (fun hr => (hev .req hr).1) hexit']
      exact h.handler c p' eid hp hexit hpc
  | @req p h' hp hrun hr hh =>
      rw [hh]
      cases hr with
      | lookup _ =>
          obtain rfl : s.hub.ev.idMax = eid := ReqPos.dns.inj hpc
          simp
      | go _ hpos _ => rcases hpos with rfl | rfl <;> exact absurd hpc (by simp)
      | block hpc' _ => exact absurd (hpc'.symm.trans hpc) (by simp)
      | noLookup hpc' => exact absurd (hpc'.symm.trans hpc) (by simp)
      | append hpc' _ _ => exact absurd (hpc'.symm.trans hpc) (by simp)
      | _ => exact absurd hpc (by simp)
  | @rsp p h' hp hrun hr hh =>
      have hreq : p.req = .dns eid := hr.req_eq.2.1.symm.trans hpc
      rw [handlers_step hids hw hs (howns hp hreq) (by simp [hrun]) hexit']
      exact h.handler c p eid hp hexit hreq
  | @woken p ret side hp _ _ hres _ hev =>
      cases side with
      | req =>
          rw [hres] at hpc
          cases hreq : p.req <;> simp [Peer.resume, hreq] at hpc
      | rsp =>
          rw [hres, (resume_rsp_req p ret).2.1] at hpc
          rw [hev]
          exact h.handler c p eid hp hexit hpc
  | new _ hnew _ _ _ _ => simp [hnew, Peer.new] at hpc

theorem lookupsKept_step (h : LookupsKept s) (hw : NoWrap s) (hsep : Separate s s')
    (hs : Step s s') : LookupsKept s' where
  heard := heard_step h.heard hw hs
  handler := fun _ _ _ => dnsHandler_step h hw hs
  pending := fun _ _ _ => pending_of_step h hs hsep

end Notify

open Lib Notify

-- ============================================================================
-- The proxy
-- ============================================================================

namespace World

variable {w w' : World}

@[simp] theorem asyncResume_dns (w : World) (x : Co) (ret : Int) (m : Main) :
    (w.asyncResume x ret m).sh.dns = w.sh.dns := by
  unfold asyncResume
  split
  · rfl
  · split <;> rfl

@[simp] theorem connErr_dns (w : World) (o : Option (ClientId × ConnIx)) :
    ((o.map w.connErr).getD w).sh.dns = w.sh.dns := by
  cases o with
  | none => rfl
  | some t =>
      show (w.connErr t).sh.dns = w.sh.dns
      unfold connErr
      split
      · rfl
      · split <;> rfl

theorem nextTodo_dns (w : World) (t : Todo) : (w.nextTodo t).sh.dns = w.sh.dns := by
  cases t with
  | batch evs =>
      cases evs with
      | nil => rfl
      | cons ev evs =>
          rw [nextTodo]
          split
          · rfl
          · dsimp only [setMain]
            split
            · exact connErr_dns _ _
            · rfl
  | done ents =>
      cases ents with
      | nil => rfl
      | cons nh ents => exact connErr_dns w nh.err

theorem callHandler_dns (w : World) (h : Handler) (ev : EpollEvent) (k : Main) :
    (w.callHandler h ev k).sh.dns = w.sh.dns := by
  cases h with
  | co x => exact asyncResume_dns w x _ k
  | accept sfd =>
      rw [callHandler]
      split <;> rfl
  | dns => rfl

/-- The main loop does not complete lookups. -/
theorem mainStep_flight {ch : Choice} (h : w.mainStep ch = some w') :
    w'.sh.dns.flight = w.sh.dns.flight := by
  unfold mainStep at h
  split at h
  · rw [Option.some.injEq] at h
    subst h
    unfold eventWork
    split
    · split <;> rfl
    · split
      · rfl
      · rw [asyncResume_dns]
  · rw [Option.some.injEq] at h
    exact h ▸ rfl
  · unfold epollWait at h
    split at h
    · split at h
      · rw [Option.some.injEq] at h
        exact h ▸ rfl
      · split at h
        · rw [Option.some.injEq] at h
          exact h ▸ rfl
        · exact absurd h (by simp)
    · rw [Option.some.injEq] at h
      exact h ▸ rfl
    · exact absurd h (by simp)
  · rw [Option.some.injEq] at h
    rw [← h, nextTodo_dns]
  · split at h
    · rw [Option.some.injEq] at h
      exact h ▸ rfl
    · rw [Option.some.injEq] at h
      rw [← h, callHandler_dns]
  · split at h
    · rw [Option.some.injEq] at h
      exact h ▸ rfl
    · rw [Option.some.injEq] at h
      rw [← h, callHandler_dns]
  · split at h
    · rw [Option.some.injEq] at h
      exact h ▸ rfl
    · split at h
      · exact absurd h (by simp)
      · rw [Option.some.injEq] at h
        exact h ▸ rfl
    · exact absurd h (by simp)
  · split at h
    · rw [Option.some.injEq] at h
      exact h ▸ rfl
    · rw [Option.some.injEq] at h
      exact h ▸ rfl
  · exact absurd h (by simp)

/-- No event id is used twice, and no lookup completes while the signal of another is
    pending. -/
def lookupsOk (w : World) (ch : Choice) : Bool :=
  w.idsLeft &&
    match ch with
    | .dnsDone _ => w.sh.dns.sigPending.isNone
    | _ => true

/-- A coroutine that waits in `net_dns_lookup_a` for its lookup, which has completed. -/
def Suspended (w : World) (c : ClientId) (eid : EventId) : Prop :=
  (∃ cl j, w.clients c = some cl ∧ cl.req = .dns j eid) ∧ eid ∉ w.sh.dns.flight

/-- Every completed lookup whose coroutine still waits has its own notification: the
    pending signal, or an event that has not been dispatched. -/
def Notified (w : World) : Prop :=
  ∀ c eid, w.Suspended c eid →
    (w.sh.dns.sigPending = some eid ∨ ∃ d, (eid, d) ∈ w.sh.hub.queue) ∧
      ∀ c', w.Suspended c' eid → c' = c

/-- Only `dnsDone` completes a lookup. -/
theorem flight_step {ch : Choice} (hne : ∀ eid, ch ≠ .dnsDone eid) (h : w.step ch = some w') :
    ∀ eid ∈ w.sh.dns.flight, eid ∈ w'.sh.dns.flight := by
  intro eid hmem
  unfold step at h
  split at h
  · exact absurd h (by simp)
  · split at h
    · exact absurd rfl (hne _)
    · rw [mainStep_flight h]
      exact hmem
    · split at h
      · exact absurd h (by simp)
      · rename_i x _ _ _ cl hcl
        obtain ⟨l', hl', rfl⟩ := Option.map_eq_some_iff.mp h
        obtain ⟨c, side⟩ := x
        show eid ∈ l'.sh.hub.flight
        cases side with
        | req =>
            have hr := (reqStep_refines hl').step
            cases hr.flight with
            | inl heq => exact heq ▸ hmem
            | inr heq => exact heq ▸ List.mem_append_left _ hmem
        | rsp =>
            rw [(rspStep_refines hl').step.flight]
            exact hmem

theorem separate_of_lookupsOk {ch : Choice} (hexit : ExitOk w.notify) (hok : w.lookupsOk ch = true)
    (h : w.step ch = some w') : Separate w.notify w'.notify := by
  constructor
  · intro hsig eid hmem
    refine flight_step (fun eid₀ heq => ?_) h eid hmem
    rw [heq, lookupsOk, Bool.and_eq_true, Option.isNone_iff_eq_none] at hok
    exact hsig hok.2
  · intro hexited
    have hmain : w.sh.main = .exited := of_decide_eq_true hexited
    rcases step_cases h with ⟨eid, hd⟩ | ⟨-, hstep⟩ | ⟨x, cl, l', hrun, -, -, -⟩
    · unfold dnsDone at hd
      split at hd
      · rw [Option.some.injEq] at hd
        exact hd ▸ rfl
      · exact absurd hd (by simp)
    · rw [mainStep, hmain] at hstep
      exact absurd hstep (by simp)
    · exact absurd ((hexit hexited).1.symm.trans hrun) (by simp)

end World

theorem lookupsKept_init : LookupsKept World.init.notify where
  heard := heard_init
  handler := fun _ _ _ hp => absurd hp (by simp [World.notify, World.init])
  pending := fun _ _ _ hp => absurd hp (by simp [World.notify, World.init])

/-- As long as no lookup completes while the signal of another is pending, no completion
    is lost. -/
theorem lookups_notified {w : World}
    (h : Run World.step (fun w ch => w.lookupsOk ch = true) World.init w) : w.Notified := by
  have hkept : LookupsKept w.notify := by
    refine notify_invariant lookupsKept_init (fun w w' ch hI hok hstep hs => ?_) h
    have hids : w.idsLeft = true := (Bool.and_eq_true _ _ ▸ hok).1
    exact lookupsKept_step hI (noWrap_of_idsLeft hids)
      (World.separate_of_lookupsOk hI.heard.exit hok hstep) hs
  rintro c eid ⟨⟨cl, j, hcl, hpc⟩, hdone⟩
  have hpeer {c : ClientId} {cl : Client} {j : ReqIx} (hcl : w.clients c = some cl)
      (hpc : cl.req = .dns j eid) : w.notify.peers c = some cl.peer ∧ cl.peer.req = .dns eid := by
    refine ⟨by simp [World.notify, hcl], ?_⟩
    show cl.req.pos = .dns eid
    rw [hpc]
    rfl
  obtain ⟨hp, hreq⟩ := hpeer hcl hpc
  refine ⟨(hkept.pending c cl.peer eid hp hreq).resolve_left hdone, ?_⟩
  rintro c' ⟨⟨cl', j', hcl', hpc'⟩, -⟩
  obtain ⟨hp', hreq'⟩ := hpeer hcl' hpc'
  have hsame := hkept.heard.ids.unique eid ⟨c', .req⟩ ⟨c, .req⟩
    ⟨cl'.peer, hp', .inr (.inl hreq')⟩ ⟨cl.peer, hp, .inr (.inl hreq)⟩
  exact congrArg Co.client hsame

/-- Two clients connect and each asks for another host. -/
def twoLookups : List Choice :=
  [.epoll [⟨5, false⟩], .accept (.conn 6 ⟨.inet, 1, [127, 0, 0, 1]⟩ true),
    .accept (.conn 7 ⟨.inet, 2, [127, 0, 0, 1]⟩ true), .accept .stop,
    .sys (.ok (bytesOf "GET http://a/ HTTP/1.1\r\n\r\n")), .lookup true,
    .sys (.ok (bytesOf "GET http://b/ HTTP/1.1\r\n\r\n")), .lookup true]

/-- The first lookup completes, and the second after its signal has been read. -/
theorem twoLookups_notified : ∃ w : World,
    Run World.step (fun w ch => w.lookupsOk ch = true) World.init w ∧
      (w.sh.dns.sigPending = some 5 ∧ w.sh.dns.flight = []) ∧ w.Notified := by
  have hd : (World.driveInit World.lookupsOk 300
      (twoLookups ++ [.dnsDone 4, .epoll [⟨4, false⟩], .dnsDone 5])).any (fun w =>
        w.sh.dns.sigPending = some 5 && w.sh.dns.flight = []) = true := by
    decide +kernel
  obtain ⟨w, hr, hp⟩ := exists_run_of_drive hd
  rw [Bool.and_eq_true, decide_eq_true_eq, decide_eq_true_eq] at hp
  exact ⟨w, hr, hp, lookups_notified hr⟩

/-- Both lookups complete before the signal is read: the second has nothing. -/
theorem lookup_lost_reachable : ∃ w : World, w.Reachable ∧ ¬w.Notified := by
  have hd : (World.driveInit (fun _ _ => true) 300
      (twoLookups ++ [.dnsDone 4, .dnsDone 5])).any (fun w =>
        w.sh.dns.sigPending = some 4 && w.sh.dns.flight = [] && w.sh.hub.queue = [] &&
          (w.clients 1).any fun cl => cl.req.pos = .dns 5) = true := by
    decide +kernel
  obtain ⟨w, hr, hp⟩ := World.reachable_of_drive hd
  simp only [Bool.and_eq_true, decide_eq_true_eq, Option.any_eq_true] at hp
  obtain ⟨⟨⟨hsig, hflight⟩, hqueue⟩, cl, hcl, hpos⟩ := hp
  refine ⟨w, hr, fun hnotified => ?_⟩
  have hwaits : w.Suspended 1 5 := by
    cases hreq : cl.req <;> rw [hreq] at hpos <;> simp [ReqPc.pos] at hpos
    exact ⟨⟨cl, _, hcl, by rw [hreq, hpos]⟩, by rw [hflight]; exact List.not_mem_nil⟩
  rcases (hnotified 1 5 hwaits).1 with hp | ⟨d, hd⟩
  · rw [hsig] at hp
    exact absurd hp (by decide)
  · rw [hqueue] at hd
    exact absurd hd List.not_mem_nil

end HttpProxy
