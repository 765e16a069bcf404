/-
  HttpProxy.Notify.Waits

  Every registration for I/O belongs to a coroutine that waits for exactly that
  descriptor and direction, also after the main loop has taken it out of the
  handler table to call it, and no coroutine is registered twice (`IoOk`).

  The event ids are accounted for by tokens: `Hub.tok h eid` counts the events
  of `eid` that are in the queue or will be put there by a DNS lookup.
-/

import HttpProxy.Notify.Requests

namespace HttpProxy
namespace Notify

variable {s s' : State}

-- ============================================================================
-- Waiting and running
-- ============================================================================

/-- The request coroutine waits where it is. -/
def Peer.ReqParked (p : Peer) : Prop :=
  match p.req with
  | .start => p.reqWait = some (.event p.evReq)
  | .work => ∃ fd d, p.reqWait = some (.io fd d)
  | .dns eid => p.reqWait = some (.event eid)
  | .final => p.reqWait = some (.event p.evReq)
  | .finished => p.reqWait = none
  | _ => False

/-- The response coroutine waits where it is. -/
def Peer.RspParked (p : Peer) : Prop :=
  match p.rsp with
  | .start => p.rspWait = some (.event p.evRsp)
  | .empty => p.rspWait = some (.event p.evRsp)
  | .serve => ∃ fd d, p.rspWait = some (.io fd d)
  | .finished => p.rspWait = none
  | _ => False

def Peer.Parked (p : Peer) : Side → Prop
  | .req => p.ReqParked
  | .rsp => p.RspParked

/-- The running coroutine waits for nothing and all others wait. -/
structure ParkOk (s : State) : Prop where
  running : ∀ x p, s.hub.running = some x → s.peers x.client = some p → p.wait x.side = none
  parked : ∀ x p, s.hub.running ≠ some x → s.peers x.client = some p → p.Parked x.side

theorem wait_resume (p : Peer) (ret : Int) (side : Side) :
    (p.resume ret side).wait side = none := by
  cases side with
  | req => cases hp : p.req <;> simp [Peer.resume, Peer.wait, hp]
  | rsp => cases hp : p.rsp <;> simp [Peer.resume, Peer.wait, hp]

theorem wait_resume_of_ne {side side' : Side} (hne : side' ≠ side) (p : Peer) (ret : Int) :
    (p.resume ret side).wait side' = p.wait side' := by
  cases side with
  | req =>
      cases side' with
      | req => exact absurd rfl hne
      | rsp => exact (resume_req_rsp p ret).2.2.2.1
  | rsp =>
      cases side' with
      | req => exact (resume_rsp_req p ret).2.2.2
      | rsp => exact absurd rfl hne

theorem parked_resume_of_ne {side side' : Side} (hne : side' ≠ side) {p : Peer} (ret : Int)
    (hp : p.Parked side') : (p.resume ret side).Parked side' := by
  cases side with
  | req =>
      cases side' with
      | req => exact absurd rfl hne
      | rsp =>
          obtain ⟨hev, hrsp, -, hwait, -⟩ := resume_req_rsp p ret
          rw [Peer.Parked, Peer.RspParked, hrsp, hwait, hev]
          exact hp
  | rsp =>
      cases side' with
      | req =>
          obtain ⟨hev, hreq, -, hwait⟩ := resume_rsp_req p ret
          rw [Peer.Parked, Peer.ReqParked, hreq, hwait, hev]
          exact hp
      | rsp => exact absurd rfl hne

/-- A request coroutine that makes a step goes on, or waits where it now is. -/
theorem ReqStep.wait {c : ClientId} {p p' : Peer} {h h' : Hub} (hr : ReqStep c p h p' h')
    (hrun : h.running = some ⟨c, .req⟩) (hwait : p.reqWait = none) :
    h'.running = some ⟨c, .req⟩ ∧ p'.reqWait = none ∨
      h'.running = none ∧ p'.ReqParked := by
  cases hr with
  | block hpc _ => exact .inr ⟨rfl, by simp [Peer.ReqParked, hpc]⟩
  | lookup _ => exact .inr ⟨rfl, rfl⟩
  | final _ _ => exact .inr ⟨rfl, rfl⟩
  | cleanup _ _ => exact .inr ⟨rfl, hwait⟩
  | _ => exact .inl ⟨hrun, hwait⟩

theorem RspStep.wait {c : ClientId} {p p' : Peer} {h h' : Hub} (hr : RspStep c p h p' h')
    (hrun : h.running = some ⟨c, .rsp⟩) (hwait : p.rspWait = none) :
    h'.running = some ⟨c, .rsp⟩ ∧ p'.rspWait = none ∨
      h'.running = none ∧ p'.RspParked := by
  cases hr with
  | block hpc _ => exact .inr ⟨rfl, by simp [Peer.RspParked, hpc]⟩
  | sleep _ _ => exact .inr ⟨rfl, rfl⟩
  | exit _ _ => exact .inr ⟨rfl, hwait⟩
  | _ => exact .inl ⟨hrun, hwait⟩

/-- One side's step leaves the wait of the other side alone. -/
theorem ReqStep.parked_rsp {c : ClientId} {p p' : Peer} {h h' : Hub} (hr : ReqStep c p h p' h') :
    p.RspParked → p'.RspParked := by
  obtain ⟨hev, hrsp, -, hwait⟩ := hr.rsp_eq
  intro hp
  rw [Peer.RspParked, hrsp, hwait, hev]
  exact hp

theorem RspStep.parked_req {c : ClientId} {p p' : Peer} {h h' : Hub} (hr : RspStep c p h p' h') :
    p.ReqParked → p'.ReqParked := by
  obtain ⟨hev, hreq, -, hwait⟩ := hr.req_eq
  intro hp
  rw [Peer.ReqParked, hreq, hwait, hev]
  exact hp

theorem parked_new (ev : Events) (side : Side) : (Peer.new ev).Parked side := by
  cases side <;> rfl

theorem parkOk_step (h : ParkOk s) (hs : Step s s') : ParkOk s' := by
  have hcase : ∀ c p', s'.peers c = some p' → ∀ side,
      (s'.hub.running = some ⟨c, side⟩ → p'.wait side = none) ∧
      (s'.hub.running ≠ some ⟨c, side⟩ → p'.Parked side) := by
    intro c p' hp' side
    cases peer_case hs hp' with
    | same hp hrun hrun' =>
        refine ⟨fun hr => h.running ⟨c, side⟩ p' (hrun side hr) hp, fun hr => ?_⟩
        refine h.parked ⟨c, side⟩ p' (fun hold => hr ?_) hp
        exact (hrun' side hold).2.trans hold
    | @req p h' hp hrun hr hh =>
        have hpark : side = .rsp → p'.Parked side := by
          rintro rfl
          exact hr.parked_rsp (h.parked ⟨c, .rsp⟩ p (by simp [hrun]) hp)
        rw [hh]
        rcases hr.wait hrun (h.running ⟨c, .req⟩ p hrun hp) with ⟨hrun', hwait⟩ | ⟨hrun', hwait⟩
        · cases side with
          | req => exact ⟨fun _ => hwait, fun hne => absurd hrun' hne⟩
          | rsp => exact ⟨fun hc => absurd (hrun'.symm.trans hc) (by simp), fun _ => hpark rfl⟩
        · refine ⟨fun hc => absurd (hrun'.symm.trans hc) (by simp), fun _ => ?_⟩
          cases side with
          | req => exact hwait
          | rsp => exact hpark rfl
    | @rsp p h' hp hrun hr hh =>
        have hpark : side = .req → p'.Parked side := by
          rintro rfl
          exact hr.parked_req (h.parked ⟨c, .req⟩ p (by simp [hrun]) hp)
        rw [hh]
        rcases hr.wait hrun (h.running ⟨c, .rsp⟩ p hrun hp) with ⟨hrun', hwait⟩ | ⟨hrun', hwait⟩
        · cases side with
          | req => exact ⟨fun hc => absurd (hrun'.symm.trans hc) (by simp), fun _ => hpark rfl⟩
          | rsp => exact ⟨fun _ => hwait, fun hne => absurd hrun' hne⟩
        · refine ⟨fun hc => absurd (hrun'.symm.trans hc) (by simp), fun _ => ?_⟩
          cases side with
          | req => exact hpark rfl
          | rsp => exact hwait
    | @woken p ret side' hp hrun _ hres hrun' _ =>
        rw [hrun', hres]
        by_cases hside : side = side'
        · subst hside
          exact ⟨fun _ => wait_resume p ret side, fun hne => absurd rfl hne⟩
        · refine ⟨fun hc => ?_, fun _ => ?_⟩
          · exact absurd (congrArg Co.side (Option.some.inj hc)).symm hside
          · exact parked_resume_of_ne hside ret (h.parked ⟨c, side⟩ p (by simp [hrun]) hp)
    | new _ hnew hh hrun _ _ =>
        rw [hnew, hh]
        exact ⟨fun hr => absurd (hrun.symm.trans hr) (by simp), fun _ => parked_new s.hub.ev side⟩
  exact ⟨fun x p hr hp => (hcase x.client p hp x.side).1 hr,
    fun x p hr hp => (hcase x.client p hp x.side).2 hr⟩

-- ============================================================================
-- Waking up
-- ============================================================================

/-- What a coroutine that starts to run was woken by. -/
inductive WokenBy (h h' : Hub) (x : Co) : Prop where
  | event {eid : EventId} {d : Bool} {q : List (EventId × Bool)} : h.running = none →
      h.inEvent = false → h.ev.queue = (eid, d) :: q → h.ev.handlers eid = some x →
      h' = { h with inEvent := true, running := some x } → WokenBy h h' x
  | io {fd : Fd} {d : Dir} {pend : List (Fd × Dir × Co)} : h.pend = (fd, d, x) :: pend →
      h' = { h with running := some x, pend } → WokenBy h h' x

theorem wokenBy (hs : Step s s') {x : Co} (hrun : s.hub.running ≠ some x)
    (hrun' : s'.hub.running = some x) : WokenBy s.hub s'.hub x := by
  have hkeep (h : s'.hub.running = s.hub.running ∨ s'.hub.running = none) :
      WokenBy s.hub s'.hub x := by
    rcases h with h | h
    · exact absurd (h.symm.trans hrun') hrun
    · exact absurd (h.symm.trans hrun') (by simp)
  cases hs with
  | req _ _ hr => exact hkeep hr.running
  | rsp _ _ hr => exact hkeep hr.running
  | wakeEvent hnone hin hq hh _ _ =>
      obtain rfl := Option.some.inj hrun'
      exact .event hnone hin hq hh rfl
  | wakeIo _ _ _ hpend _ _ =>
      obtain rfl := Option.some.inj hrun'
      exact .io hpend rfl
  | _ => exact absurd hrun' hrun

/-- `x` waits, and for `w`. -/
def Waits (s : State) (x : Co) (w : Wait) : Prop :=
  ∃ p, s.peers x.client = some p ∧ p.wait x.side = some w

theorem Waits.unique {x : Co} {w w' : Wait} (h : Waits s x w) (h' : Waits s x w') : w = w' := by
  obtain ⟨p, hp, hw⟩ := h
  obtain ⟨p', hp', hw'⟩ := h'
  obtain rfl := Option.some.inj (hp.symm.trans hp')
  exact Option.some.inj (hw.symm.trans hw')

theorem Waits.not_running (h : ParkOk s) {x : Co} {w : Wait} (hw : Waits s x w) :
    s.hub.running ≠ some x := by
  intro hrun
  obtain ⟨p, hp, hw⟩ := hw
  exact absurd ((h.running x p hrun hp).symm.trans hw) (by simp)

/-- No client disappears. -/
theorem peers_step (hs : Step s s') {c : ClientId} {p : Peer} (hp : s.peers c = some p) :
    ∃ p', s'.peers c = some p' := by
  have hset (c' : ClientId) (p' : Peer) : ∃ q, (s.setPeer c' p').peers c = some q := by
    by_cases hc : c = c'
    · subst hc
      exact ⟨p', setPeer_self s c p'⟩
    · exact ⟨p, (setPeer_of_ne s hc p').trans hp⟩
  cases hs with
  | req _ _ _ => exact hset _ _
  | rsp _ _ _ => exact hset _ _
  | wakeEvent _ _ _ _ _ _ => exact hset _ _
  | wakeIo _ _ _ _ _ _ => exact hset _ _
  | accept _ _ _ _ =>
      by_cases hc : c = s.nclients
      · exact ⟨Peer.new s.hub.ev, by simp [hc]⟩
      · exact ⟨p, by simpa [Function.update_of_ne hc] using hp⟩
  | _ => exact ⟨p, hp⟩

/-- A coroutine that is not woken waits on. -/
theorem waits_step (hids : IdsOk s) (hpark : ParkOk s) (hs : Step s s') {x : Co} {w : Wait}
    (h : Waits s x w) (hrun' : s'.hub.running ≠ some x) : Waits s' x w := by
  have hnot := h.not_running hpark
  obtain ⟨c, side⟩ := x
  obtain ⟨p, hp, hw⟩ := h
  obtain ⟨p', hp'⟩ := peers_step hs hp
  refine ⟨p', hp', ?_⟩
  have hsame {q : Peer} (hq : s.peers c = some q) : q.wait side = some w := by
    rwa [Option.some.inj (hq.symm.trans hp)]
  cases peer_case hs hp' with
  | same hq _ _ => exact hsame hq
  | req hq hrun hr _ =>
      cases side with
      | req => exact absurd hrun hnot
      | rsp => exact hr.rsp_eq.2.2.2.trans (hsame hq)
  | rsp hq hrun hr _ =>
      cases side with
      | req => exact hr.req_eq.2.2.2.trans (hsame hq)
      | rsp => exact absurd hrun hnot
  | @woken q ret side' hq _ _ hres hrun _ =>
      have hne : side ≠ side' := by
        rintro rfl
        exact hrun' hrun
      rw [hres, wait_resume_of_ne hne]
      exact hsame hq
  | new hc _ _ _ _ _ => exact absurd ((hids.fresh c (Nat.le_of_eq hc.symm)).symm.trans hp) (by simp)

-- ============================================================================
-- Registrations
-- ============================================================================

/-- The event at the head of the queue is for a coroutine that waits for it. -/
def EventOk (s : State) : Prop :=
  s.hub.running = none → s.hub.inEvent = false → ∀ eid d q x,
    s.hub.ev.queue = (eid, d) :: q → s.hub.ev.handlers eid = some x → Waits s x (.event eid)

structure IoOk (s : State) : Prop where
  registered : ∀ fd d x, Registered s.hub.table fd d x → Waits s x (.io fd d)
  pend : ∀ fd d x, (fd, d, x) ∈ s.hub.pend → Waits s x (.io fd d)
  table : TableOk s.hub.table
  nodup : s.hub.pend.Nodup
  disjoint : ∀ fd d x, (fd, d, x) ∈ s.hub.pend → ¬Registered s.hub.table fd d x

theorem mem_calls {e : PullEnt} {fd : Fd} {d : Dir} {x : Co} :
    (fd, d, x) ∈ e.calls ↔ fd = e.fd ∧ e.co d = some x := by
  unfold PullEnt.calls
  cases hr : e.co .read <;> cases hw : e.co .write <;> cases d <;>
    simp [hr, hw, eq_comm, and_comm]

theorem nodup_calls (e : PullEnt) : e.calls.Nodup := by
  unfold PullEnt.calls
  cases e.co .read <;> cases e.co .write <;> simp

theorem nodup_flatMap_calls {t : List PullEnt} (h : TableOk t) :
    (t.flatMap PullEnt.calls).Nodup := by
  induction t with
  | nil => simp
  | cons e t ih =>
      rw [TableOk, List.map_cons, List.nodup_cons] at h
      rw [List.flatMap_cons, List.nodup_append]
      refine ⟨nodup_calls e, ih h.2, ?_⟩
      rintro ⟨fd, d, x⟩ ha b hb rfl
      obtain ⟨e', he', hb⟩ := List.mem_flatMap.mp hb
      have hfd : e.fd = e'.fd := (mem_calls.mp ha).1.symm.trans (mem_calls.mp hb).1
      exact h.1 (List.mem_map.mpr ⟨e', he', hfd.symm⟩)

/-- A registration is an old one, or the running coroutine has just begun to wait. -/
theorem registered_step (hs : Step s s') {fd : Fd} {d : Dir} {x : Co}
    (h : Registered s'.hub.table fd d x) :
    Registered s.hub.table fd d x ∨
      s.hub.running = some x ∧ s'.hub.pend = s.hub.pend ∧ Waits s' x (.io fd d) := by
  cases hs with
  | @req c p p' h' hrun hp hr =>
      cases hr with
      | go _ _ ht => exact .inl (ht.le _ _ _ h)
      | append _ _ ht => exact .inl (ht.le _ _ _ h)
      | cleanup _ ht => exact .inl (ht.le _ _ _ h)
      | block _ ht =>
          rcases ht.le _ _ _ h with h | ⟨rfl, rfl, rfl⟩
          · exact .inl h
          · exact .inr ⟨hrun, rfl, _, setPeer_self s c _, rfl⟩
      | _ => exact .inl h
  | @rsp c p p' h' hrun hp hr =>
      cases hr with
      | go _ ht => exact .inl (ht.le _ _ _ h)
      | served _ ht => exact .inl (ht.le _ _ _ h)
      | exit _ ht => exact .inl (ht.le _ _ _ h)
      | block _ ht =>
          rcases ht.le _ _ _ h with h | ⟨rfl, rfl, rfl⟩
          · exact .inl h
          · exact .inr ⟨hrun, rfl, _, setPeer_self s c _, rfl⟩
      | _ => exact .inl h
  | take _ _ _ _ ht _ => exact .inl (ht.le _ _ _ h)
  | takeAll _ _ _ =>
      obtain ⟨e, he, -⟩ := h
      exact absurd he List.not_mem_nil
  | accept _ _ _ ht => exact .inl (ht.le _ _ _ h)
  | main ht => exact .inl (ht.le _ _ _ h)
  | _ => exact .inl h

/-- What a step does to the calls the main loop has still to make. -/
inductive PendStep (s s' : State) : Prop where
  | keep : s'.hub.pend = s.hub.pend → PendStep s s'
  | call {e : Fd × Dir × Co} : s.hub.pend = e :: s'.hub.pend → s'.hub.table = s.hub.table →
      PendStep s s'
  | take : s.hub.running = none → s'.hub.running = none → s'.hub.pend.Nodup →
      (∀ fd d x, (fd, d, x) ∈ s'.hub.pend →
        Registered s.hub.table fd d x ∧ ¬Registered s'.hub.table fd d x) → PendStep s s'

theorem pend_step (htable : TableOk s.hub.table) (hs : Step s s') : PendStep s s' := by
  cases hs with
  | req _ _ hr => cases hr <;> exact .keep rfl
  | rsp _ _ hr => cases hr <;> exact .keep rfl
  | wakeIo _ _ _ hpend _ _ => exact .call hpend rfl
  | @take e t hrun _ _ he _ hnot =>
      refine .take hrun hrun (nodup_calls e) fun fd d x hx => ?_
      obtain ⟨rfl, hco⟩ := mem_calls.mp hx
      exact ⟨⟨e, he, rfl, hco⟩, hnot d x⟩
  | takeAll hrun _ _ =>
      refine .take hrun hrun (nodup_flatMap_calls htable) fun fd d x hx => ?_
      obtain ⟨e, he, hx⟩ := List.mem_flatMap.mp hx
      obtain ⟨rfl, hco⟩ := mem_calls.mp hx
      refine ⟨⟨e, he, rfl, hco⟩, ?_⟩
      rintro ⟨e', he', -⟩
      exact absurd he' List.not_mem_nil
  | _ => exact .keep rfl

theorem table_step (h : TableOk s.hub.table) (hs : Step s s') : TableOk s'.hub.table := by
  cases hs with
  | req _ _ hr =>
      cases hr with
      | go _ _ ht => exact ht.ok h
      | append _ _ ht => exact ht.ok h
      | cleanup _ ht => exact ht.ok h
      | block _ ht => exact ht.ok h
      | _ => exact h
  | rsp _ _ hr =>
      cases hr with
      | go _ ht => exact ht.ok h
      | served _ ht => exact ht.ok h
      | exit _ ht => exact ht.ok h
      | block _ ht => exact ht.ok h
      | _ => exact h
  | take _ _ _ _ ht _ => exact ht.ok h
  | takeAll _ _ _ => exact List.nodup_nil
  | accept _ _ _ ht => exact ht.ok h
  | main ht => exact ht.ok h
  | _ => exact h

/-- A coroutine keeps waiting for I/O unless it is called for it. -/
theorem waits_io_step (hids : IdsOk s) (hpark : ParkOk s) (hs : Step s s') {x : Co} {fd : Fd}
    {d : Dir} (hev : s.hub.running = none → s.hub.inEvent = false → ∀ eid d q,
      s.hub.ev.queue = (eid, d) :: q → s.hub.ev.handlers eid = some x → Waits s x (.event eid))
    (hpend : ∀ fd d, (fd, d, x) ∈ s.hub.pend → Waits s x (.io fd d))
    (hw : Waits s x (.io fd d)) (hcall : s.hub.pend ≠ (fd, d, x) :: s'.hub.pend) :
    Waits s' x (.io fd d) := by
  refine waits_step hids hpark hs hw fun hrun' => ?_
  cases wokenBy hs (hw.not_running hpark) hrun' with
  | event hrun hin hq hh _ =>
      exact absurd (hw.unique (hev hrun hin _ _ _ hq hh)) (by simp)
  | @io fd₀ d₀ pend hp hh =>
      have hw₀ : Waits s x (.io fd₀ d₀) := hpend fd₀ d₀ (by simp [hp])
      have heq := hw.unique hw₀
      simp only [Wait.io.injEq] at heq
      obtain ⟨rfl, rfl⟩ := heq
      refine hcall ?_
      rw [hp, hh]

theorem ioOk_step (hids : IdsOk s) (hpark : ParkOk s) (hev : EventOk s) (h : IoOk s)
    (hs : Step s s') : IoOk s' := by
  have hkeep {x : Co} {fd : Fd} {d : Dir} : Waits s x (.io fd d) →
      s.hub.pend ≠ (fd, d, x) :: s'.hub.pend → Waits s' x (.io fd d) :=
    waits_io_step hids hpark hs (fun hrun hin eid d q => hev hrun hin eid d q x)
      (fun fd d => h.pend fd d x)
  have hreg : ∀ fd d x, Registered s.hub.table fd d x → Waits s' x (.io fd d) := by
    intro fd d x hx
    refine hkeep (h.registered fd d x hx) fun hcall => ?_
    exact h.disjoint fd d x (by simp [hcall]) hx
  refine ⟨?_, ?_, table_step h.table hs, ?_, ?_⟩
  · intro fd d x hx
    rcases registered_step hs hx with hx | ⟨-, -, hw⟩
    · exact hreg fd d x hx
    · exact hw
  · intro fd d x hx
    cases pend_step h.table hs with
    | keep hpend =>
        rw [hpend] at hx
        refine hkeep (h.pend fd d x hx) fun hcall => ?_
        have hlen := congrArg List.length hcall
        rw [hpend, List.length_cons] at hlen
        omega
    | @call e hpend _ =>
        have hnd := h.nodup
        rw [hpend, List.nodup_cons] at hnd
        refine hkeep (h.pend fd d x (by simp [hpend, hx])) fun hcall => ?_
        rw [hpend, List.cons_eq_cons] at hcall
        exact hnd.1 (hcall.1 ▸ hx)
    | take _ _ _ hmem => exact hreg fd d x (hmem fd d x hx).1
  · cases pend_step h.table hs with
    | keep hpend => exact hpend ▸ h.nodup
    | call hpend _ =>
        have hnd := h.nodup
        rw [hpend] at hnd
        exact (List.nodup_cons.mp hnd).2
    | take _ _ hnd _ => exact hnd
  · intro fd d x hx hr
    cases pend_step h.table hs with
    | keep hpend =>
        rw [hpend] at hx
        rcases registered_step hs hr with hr | ⟨hrun, -, -⟩
        · exact h.disjoint fd d x hx hr
        · exact (h.pend fd d x hx).not_running hpark hrun
    | call hpend htable =>
        rw [htable] at hr
        exact h.disjoint fd d x (by simp [hpend, hx]) hr
    | take _ _ _ hmem => exact (hmem fd d x hx).2 hr

end Notify
end HttpProxy
