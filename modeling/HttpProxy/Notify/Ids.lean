/-
  HttpProxy.Notify.Ids

  Event ids belong to coroutines: `Owns s eid x` says that `x` waits, or will
  wait, for the events of `eid`.  As long as the 32-bit counter does not wrap
  (`NoWrap`), an id has one owner (`IdsOk`), so that only its owner changes the
  handler of an id.  The other general facts about a step are what it does to one
  client (`peer_case`), to the events still to be dispatched (`queue_step`), and
  that nothing happens after the exit.
-/

import HttpProxy.Notify.Model

namespace HttpProxy
namespace Notify

/-- The request coroutine has a DNS lookup under way with id `eid`. -/
def Peer.HasDns (p : Peer) (eid : EventId) : Prop := p.req = .dns eid ∨ p.req = .resolved eid

/-- The coroutine on one side waits, or will wait, for the events of `eid`. -/
def Peer.Owns (p : Peer) (eid : EventId) : Side → Prop
  | .req => eid = p.evReq ∨ p.HasDns eid
  | .rsp => eid = p.evRsp

def Owns (s : State) (eid : EventId) (x : Co) : Prop :=
  ∃ p, s.peers x.client = some p ∧ p.Owns eid x.side

structure IdsOk (s : State) : Prop where
  fresh : ∀ c, s.nclients ≤ c → s.peers c = none
  lt : ∀ eid x, Owns s eid x → eid.toNat < s.hub.ev.idMax.toNat
  unique : ∀ eid x y, Owns s eid x → Owns s eid y → x = y
  dns : ∀ c p eid, s.peers c = some p → p.HasDns eid → eid ≠ p.evReq

/-- The next two calls of `event_get_id` do not wrap the counter. -/
def NoWrap (s : State) : Prop := s.hub.ev.idMax.toNat + 2 < 2 ^ 32

variable {s s' : State}

theorem setPeer_self (s : State) (c : ClientId) (p : Peer) :
    (s.setPeer c p).peers c = some p := by
  simp [State.setPeer]

theorem setPeer_of_ne (s : State) {c c' : ClientId} (h : c' ≠ c) (p : Peer) :
    (s.setPeer c p).peers c' = s.peers c' := by
  simp [State.setPeer, h]

/-- A client of `s.setPeer c p'` is the new one, or one of `s`. -/
theorem setPeer_cases {c c' : ClientId} {p' q : Peer} (h : (s.setPeer c p').peers c' = some q) :
    c' = c ∧ q = p' ∨ c' ≠ c ∧ s.peers c' = some q := by
  by_cases hc : c' = c
  · subst hc
    rw [setPeer_self, Option.some.injEq] at h
    exact .inl ⟨rfl, h.symm⟩
  · rw [setPeer_of_ne s hc] at h
    exact .inr ⟨hc, h⟩

/-- `p'` has the ids of `p`, or has finished a lookup. -/
structure SameIds (p p' : Peer) : Prop where
  evReq : p'.evReq = p.evReq
  evRsp : p'.evRsp = p.evRsp
  dns : ∀ eid, p'.HasDns eid → p.HasDns eid

theorem SameIds.refl (p : Peer) : SameIds p p := ⟨rfl, rfl, fun _ h => h⟩

theorem sameIds_resume (p : Peer) (ret : Int) (side : Side) : SameIds p (p.resume ret side) := by
  cases side with
  | req =>
      cases hp : p.req <;> simp only [Peer.resume, hp] <;> refine ⟨rfl, rfl, fun e h => ?_⟩
      case dns e' => exact .inl (by simpa [Peer.HasDns, hp] using h)
      case resolved e' => exact .inr (by simpa [Peer.HasDns, hp] using h)
      all_goals simp [Peer.HasDns] at h
  | rsp => cases hp : p.rsp <;> simp only [Peer.resume, hp] <;> exact ⟨rfl, rfl, fun _ h => h⟩

/-- A coroutine that makes a step goes on, or gives up control. -/
theorem ReqStep.running {c : ClientId} {p p' : Peer} {h h' : Hub} (hr : ReqStep c p h p' h') :
    h'.running = h.running ∨ h'.running = none := by
  cases hr <;> first | exact .inl rfl | exact .inr rfl

theorem RspStep.running {c : ClientId} {p p' : Peer} {h h' : Hub} (hr : RspStep c p h p' h') :
    h'.running = h.running ∨ h'.running = none := by
  cases hr <;> first | exact .inl rfl | exact .inr rfl

/-- A step as one client sees it: it is left alone, one of its coroutines makes a
    step or is woken, or it is new. -/
inductive PeerCase (s s' : State) (c : ClientId) (p' : Peer) : Prop where
  | same : s.peers c = some p' →
      (∀ side, s'.hub.running = some ⟨c, side⟩ → s.hub.running = some ⟨c, side⟩) →
      (∀ side, s.hub.running = some ⟨c, side⟩ →
        s'.hub.ev = s.hub.ev ∧ s'.hub.running = s.hub.running) → PeerCase s s' c p'
  | req {p : Peer} {h' : Hub} : s.peers c = some p → s.hub.running = some ⟨c, .req⟩ →
      ReqStep c p s.hub p' h' → s'.hub = h' → PeerCase s s' c p'
  | rsp {p : Peer} {h' : Hub} : s.peers c = some p → s.hub.running = some ⟨c, .rsp⟩ →
      RspStep c p s.hub p' h' → s'.hub = h' → PeerCase s s' c p'
  | woken {p : Peer} {ret : Int} {side : Side} : s.peers c = some p → s.hub.running = none →
      p.isFinished side = false → p' = p.resume ret side → s'.hub.running = some ⟨c, side⟩ →
      s'.hub.ev = s.hub.ev → PeerCase s s' c p'
  | new {t : List PullEnt} : c = s.nclients → p' = Peer.new s.hub.ev →
      s'.hub = { s.hub with ev := Events.newClient s.hub.ev c, table := t } →
      s.hub.running = none → s.hub.inEvent = false → s.hub.exited = false → PeerCase s s' c p'

theorem peer_case (hs : Step s s') {c : ClientId} {p' : Peer} (hp' : s'.peers c = some p') :
    PeerCase s s' c p' := by
  have hwake {x : Co} {p : Peer} {ret : Int} (hrun : s.hub.running = none)
      (hp : s.peers x.client = some p) (hfin : p.isFinished x.side = false)
      (h : (s.setPeer x.client (p.resume ret x.side)).peers c = some p')
      (hrun' : s'.hub.running = some x) (hev : s'.hub.ev = s.hub.ev) : PeerCase s s' c p' := by
    rcases setPeer_cases h with ⟨rfl, rfl⟩ | ⟨hc, h⟩
    · exact .woken hp hrun hfin rfl hrun' hev
    · refine .same h (fun side hside => ?_) (fun side hside => ?_)
      · rw [hrun', Option.some.injEq] at hside
        exact absurd (congrArg Co.client hside).symm hc
      · exact absurd (hrun.symm.trans hside) (by simp)
  have hidle (hrun : s.hub.running = none) (hrun' : s'.hub.running = none)
      (h : s.peers c = some p') : PeerCase s s' c p' :=
    .same h (fun side hside => absurd (hrun'.symm.trans hside) (by simp))
      (fun side hside => absurd (hrun.symm.trans hside) (by simp))
  have hother {c₀ : ClientId} {side₀ : Side} (hrun : s.hub.running = some ⟨c₀, side₀⟩)
      (hrun' : s'.hub.running = s.hub.running ∨ s'.hub.running = none) (hc : c ≠ c₀)
      (h : s.peers c = some p') : PeerCase s s' c p' := by
    refine .same h (fun side hside => ?_) (fun side hside => ?_)
    · rcases hrun' with h | h
      · exact h ▸ hside
      · exact absurd (h.symm.trans hside) (by simp)
    · rw [hrun, Option.some.injEq] at hside
      exact absurd (congrArg Co.client hside).symm hc
  cases hs with
  | @req c₀ p p₁ h' hrun hp hr =>
      rcases setPeer_cases hp' with ⟨rfl, rfl⟩ | ⟨hc, h⟩
      · exact .req hp hrun hr rfl
      · exact hother hrun hr.running hc h
  | @rsp c₀ p p₁ h' hrun hp hr =>
      rcases setPeer_cases hp' with ⟨rfl, rfl⟩ | ⟨hc, h⟩
      · exact .rsp hp hrun hr rfl
      · exact hother hrun hr.running hc h
  | wakeEvent hrun _ _ _ hp hfin => exact hwake hrun hp hfin hp' rfl rfl
  | wakeIo hrun _ _ _ hp hfin => exact hwake hrun hp hfin hp' rfl rfl
  | accept hrun hin hexit _ =>
      by_cases hc : c = s.nclients
      · subst hc
        simp only [Function.update_self, Option.some.injEq] at hp'
        exact .new rfl hp'.symm rfl hrun hin hexit
      · simp only [Function.update_of_ne hc] at hp'
        exact hidle hrun hrun hp'
  | dnsDone _ => exact .same hp' (fun _ h => h) (fun _ _ => ⟨rfl, rfl⟩)
  | main _ => exact .same hp' (fun _ h => h) (fun _ _ => ⟨rfl, rfl⟩)
  | noHandler hrun _ _ _ => exact hidle hrun hrun hp'
  | eventRet hrun _ => exact hidle hrun hrun hp'
  | take hrun _ _ _ _ _ => exact hidle hrun hrun hp'
  | takeAll hrun _ _ => exact hidle hrun hrun hp'
  | dnsRead hrun _ _ => exact hidle hrun hrun hp'
  | exit hrun _ _ => exact hidle hrun hrun hp'

/-- What a step does to the ids of one client. -/
inductive PeerStep (s s' : State) (c : ClientId) (p' : Peer) : Prop where
  | same {p : Peer} : s.peers c = some p → SameIds p p' → PeerStep s s' c p'
  | lookup {p : Peer} : s.peers c = some p → p'.evReq = p.evReq → p'.evRsp = p.evRsp →
      p'.req = .dns s.hub.ev.idMax → s'.hub.ev.idMax = s.hub.ev.idMax + 1 →
      s.hub.running = some ⟨c, .req⟩ → PeerStep s s' c p'
  | new : c = s.nclients → p' = Peer.new s.hub.ev → s'.hub.ev.idMax = s.hub.ev.idMax + 1 + 1 →
      PeerStep s s' c p'

theorem peer_step (hs : Step s s') {c : ClientId} {p' : Peer} (hp' : s'.peers c = some p') :
    PeerStep s s' c p' := by
  cases peer_case hs hp' with
  | same hp _ _ => exact .same hp (SameIds.refl _)
  | req hp hrun hr hh =>
      cases hr with
      | lookup _ => exact .lookup hp rfl rfl rfl (by rw [hh]; rfl) hrun
      | go _ hpos _ =>
          refine .same hp ⟨rfl, rfl, fun e h => ?_⟩
          rcases hpos with rfl | rfl <;> simp [Peer.HasDns] at h
      | block _ _ => exact .same hp ⟨rfl, rfl, fun _ h => h⟩
      | noLookup _ => exact .same hp (SameIds.refl _)
      | append _ _ _ => exact .same hp ⟨rfl, rfl, fun _ h => h⟩
      | _ => exact .same hp ⟨rfl, rfl, fun e h => by simp [Peer.HasDns] at h⟩
  | rsp hp _ hr _ => cases hr <;> exact .same hp ⟨rfl, rfl, fun _ h => h⟩
  | woken hp _ _ hres _ _ => exact .same hp (hres ▸ sameIds_resume _ _ _)
  | new hc hnew hh _ _ _ => exact .new hc hnew (by rw [hh]; simp [Events.newClient])

/-- What a step does to the ids of one coroutine: the new ones are the next ids of
    the counter. -/
inductive OwnsStep (s s' : State) (eid : EventId) (x : Co) : Prop where
  | old : Owns s eid x → OwnsStep s s' eid x
  | lookup : eid = s.hub.ev.idMax → s'.hub.ev.idMax = s.hub.ev.idMax + 1 → s.hub.running = some x →
      OwnsStep s s' eid x
  | new : eid = (match x.side with
        | .req => s.hub.ev.idMax
        | .rsp => s.hub.ev.idMax + 1) →
      s'.hub.ev.idMax = s.hub.ev.idMax + 1 + 1 → x.client = s.nclients → OwnsStep s s' eid x

theorem owns_step (hs : Step s s') {eid : EventId} {x : Co} (ho : Owns s' eid x) :
    OwnsStep s s' eid x := by
  obtain ⟨c, side⟩ := x
  obtain ⟨p', hp', ho⟩ := ho
  cases peer_step hs hp' with
  | same hp hsame =>
      refine .old ⟨_, hp, ?_⟩
      cases side with
      | req => exact ho.imp (fun h => h.trans hsame.evReq) (hsame.dns eid)
      | rsp => exact Eq.trans ho hsame.evRsp
  | lookup hp hreq hrsp hdns hmax hrun =>
      cases side with
      | req =>
          rcases ho with ho | ho
          · exact .old ⟨_, hp, .inl (ho.trans hreq)⟩
          · simp only [Peer.HasDns, hdns, ReqPos.dns.injEq, reduceCtorEq, or_false] at ho
            exact .lookup ho.symm hmax hrun
      | rsp => exact .old ⟨_, hp, Eq.trans ho hrsp⟩
  | new hc hnew hmax =>
      refine .new ?_ hmax hc
      subst hnew
      cases side with
      | req => simpa [Peer.Owns, Peer.HasDns, Peer.new] using ho
      | rsp => exact ho

theorem toNat_add_one {a : EventId} (h : a.toNat + 1 < 2 ^ 32) : (a + 1).toNat = a.toNat + 1 := by
  rw [UInt32.toNat_add]
  exact Nat.mod_eq_of_lt h

theorem toNat_add_two {a : EventId} (h : a.toNat + 2 < 2 ^ 32) :
    (a + 1 + 1).toNat = a.toNat + 2 := by
  have h₁ := toNat_add_one (a := a) (by omega)
  rw [toNat_add_one (by omega), h₁]

/-- The counter counts up. -/
theorem idMax_step (hw : NoWrap s) (hs : Step s s') :
    s.hub.ev.idMax.toNat ≤ s'.hub.ev.idMax.toNat := by
  have h₁ : (s.hub.ev.idMax + 1).toNat = s.hub.ev.idMax.toNat + 1 :=
    toNat_add_one (Nat.lt_of_succ_lt hw)
  have h₂ : (s.hub.ev.idMax + 1 + 1).toNat = s.hub.ev.idMax.toNat + 2 := toNat_add_two hw
  cases hs with
  | req _ _ hr =>
      cases hr with
      | append _ _ _ =>
          dsimp only
          split <;> simp
      | lookup _ => simp [h₁]
      | noLookup _ => simp [h₁]
      | _ => simp
  | rsp _ _ hr =>
      cases hr with
      | exit _ _ =>
          dsimp only
          split <;> simp
      | _ => simp
  | accept _ _ _ _ => simp [Events.newClient, h₂]
  | _ => simp

/-- The clients of a state are numbered below `nclients`. -/
theorem fresh_step (hs : Step s s') (hf : ∀ c, s.nclients ≤ c → s.peers c = none) :
    ∀ c, s'.nclients ≤ c → s'.peers c = none := by
  have hset {c : ClientId} {p p' : Peer} (hp : s.peers c = some p) (c' : ClientId)
      (hc : s.nclients ≤ c') : (s.setPeer c p').peers c' = none := by
    have hne : c' ≠ c := by
      rintro rfl
      rw [hf c' hc] at hp
      exact absurd hp (by simp)
    rw [setPeer_of_ne s hne]
    exact hf c' hc
  cases hs with
  | req _ hp _ => exact hset hp
  | rsp _ hp _ => exact hset hp
  | wakeEvent _ _ _ _ hp _ => exact hset hp
  | wakeIo _ _ _ _ hp _ => exact hset hp
  | accept _ _ _ _ =>
      intro c (hc : s.nclients + 1 ≤ c)
      have hne : c ≠ s.nclients := by omega
      simp only [Function.update_of_ne hne]
      exact hf c (by omega)
  | _ => exact hf

theorem idsOk_step (hok : IdsOk s) (hw : NoWrap s) (hs : Step s s') : IdsOk s' := by
  have hmono := idMax_step hw hs
  have h₁ : (s.hub.ev.idMax + 1).toNat = s.hub.ev.idMax.toNat + 1 :=
    toNat_add_one (Nat.lt_of_succ_lt hw)
  have h₂ : (s.hub.ev.idMax + 1 + 1).toNat = s.hub.ev.idMax.toNat + 2 := toNat_add_two hw
  refine ⟨fresh_step hs hok.fresh, ?_, ?_, ?_⟩
  · intro eid x ho
    cases owns_step hs ho with
    | old ho =>
        have := hok.lt eid x ho
        omega
    | lookup heid hmax _ =>
        rw [heid, hmax]
        omega
    | new heid hmax _ =>
        rw [heid, hmax]
        split <;> omega
  · intro eid x y hx hy
    have hlt : ∀ z, Owns s eid z → eid.toNat < s.hub.ev.idMax.toNat := hok.lt eid
    cases owns_step hs hx with
    | old hx =>
        have := hlt x hx
        cases owns_step hs hy with
        | old hy => exact hok.unique eid x y hx hy
        | lookup heid _ _ =>
            rw [heid] at this
            omega
        | new heid _ _ =>
            rw [heid] at this
            split at this <;> omega
    | lookup heid hmax hrun =>
        cases owns_step hs hy with
        | old hy =>
            have := hlt y hy
            rw [heid] at this
            omega
        | lookup _ _ hrun' => exact Option.some.inj (hrun.symm.trans hrun')
        | new _ hmax' _ =>
            have := congrArg UInt32.toNat (hmax.symm.trans hmax')
            omega
    | new heid hmax hc =>
        cases owns_step hs hy with
        | old hy =>
            have := hlt y hy
            rw [heid] at this
            split at this <;> omega
        | lookup _ hmax' _ =>
            have := congrArg UInt32.toNat (hmax.symm.trans hmax')
            omega
        | new heid' _ hc' =>
            obtain ⟨c, side⟩ := x
            obtain ⟨c', side'⟩ := y
            have heq := congrArg UInt32.toNat (heid.symm.trans heid')
            obtain rfl : c = c' := hc.trans hc'.symm
            cases side <;> cases side' <;> first | rfl | (simp only [h₁] at heq; omega)
  · intro c p' eid hp' hdns
    cases peer_step hs hp' with
    | same hp hsame =>
        rw [hsame.evReq]
        exact hok.dns c _ eid hp (hsame.dns eid hdns)
    | @lookup p hp hreq _ hreqPos _ _ =>
        simp only [Peer.HasDns, hreqPos, ReqPos.dns.injEq, reduceCtorEq, or_false] at hdns
        rintro rfl
        have := hok.lt p.evReq ⟨c, .req⟩ ⟨p, hp, .inl rfl⟩
        rw [hdns, ← hreq] at this
        omega
    | new _ hnew _ =>
        subst hnew
        simp [Peer.HasDns, Peer.new] at hdns

-- ============================================================================
-- Handlers
-- ============================================================================

theorem ne_of_owns (hok : IdsOk s) {eid eid' : EventId} {x y : Co} (hx : Owns s eid x)
    (hy : Owns s eid' y) (hne : x ≠ y) : eid ≠ eid' := by
  rintro rfl
  exact hne (hok.unique eid x y hx hy)

/-- Only the owner of an id changes its handler, as long as the process lives. -/
theorem handlers_step (hok : IdsOk s) (hw : NoWrap s) (hs : Step s s') {eid : EventId} {x : Co}
    (ho : Owns s eid x) (hrun : s.hub.running ≠ some x) (hexit : s'.hub.exited = false) :
    s'.hub.ev.handlers eid = s.hub.ev.handlers eid := by
  have hlt := hok.lt eid x ho
  have h₁ : (s.hub.ev.idMax + 1).toNat = s.hub.ev.idMax.toNat + 1 :=
    toNat_add_one (Nat.lt_of_succ_lt hw)
  have hmax : eid ≠ s.hub.ev.idMax := by
    rintro rfl
    omega
  have hmax' : eid ≠ s.hub.ev.idMax + 1 := by
    rintro rfl
    omega
  cases hs with
  | @req c p p' h' hc hp hr =>
      have hne : ∀ eid', p.Owns eid' .req → eid ≠ eid' := by
        intro eid' h
        refine ne_of_owns hok ho (y := ⟨c, .req⟩) ⟨p, hp, h⟩ ?_
        rintro rfl
        exact hrun hc
      cases hr with
      | lookup _ => simp [hmax]
      | noLookup _ => simp
      | resolved hreq => simp [hne _ (.inr (.inr hreq))]
      | append _ _ _ =>
          dsimp only
          split <;> simp
      | final _ _ => simp [hne _ (.inl rfl)]
      | cleanup _ _ => simp [hne _ (.inl rfl)]
      | _ => simp
  | @rsp c p p' h' hc hp hr =>
      have hne : eid ≠ p.evRsp := by
        refine ne_of_owns hok ho (y := ⟨c, .rsp⟩) ⟨p, hp, rfl⟩ ?_
        rintro rfl
        exact hrun hc
      cases hr with
      | sleep _ _ => simp [hne]
      | exit _ _ =>
          dsimp only
          split <;> simp [hne]
      | _ => simp
  | accept _ _ _ _ => simp [Events.newClient, hmax, hmax']
  | exit _ _ _ => simp at hexit
  | _ => simp

/-- The handlers of a client stay when none of its coroutines makes a step. -/
theorem handlers_same (hok : IdsOk s) (hw : NoWrap s) (hs : Step s s') {eid : EventId} {x : Co}
    (ho : Owns s eid x) (hev : s.hub.running = some x → s'.hub.ev = s.hub.ev)
    (hexit : s'.hub.exited = false) : s'.hub.ev.handlers eid = s.hub.ev.handlers eid := by
  by_cases hrun : s.hub.running = some x
  · rw [hev hrun]
  · exact handlers_step hok hw hs ho hrun hexit

-- ============================================================================
-- The queue
-- ============================================================================

/-- The event that is being dispatched is still in the queue. -/
def QueueOk (s : State) : Prop := s.hub.inEvent = true → s.hub.ev.queue ≠ []

/-- What a step does to the events still to be dispatched. -/
inductive QueueStep (s s' : State) : Prop where
  | keep (es : List (EventId × Bool)) : s'.hub.queue = s.hub.queue ++ es → QueueStep s s'
  | wake {e : EventId × Bool} {x : Co} : s.hub.queue = e :: s'.hub.queue →
      s.hub.ev.handlers e.1 = some x → s.hub.running = none → s'.hub.running = some x →
      QueueStep s s'
  | drop {e : EventId × Bool} : s.hub.queue = e :: s'.hub.queue →
      s.hub.ev.handlers e.1 = none → QueueStep s s'

theorem Hub.queue_append {h h' : Hub} (hok : h.inEvent = true → h.ev.queue ≠ [])
    {es : List (EventId × Bool)} (hin : h'.inEvent = h.inEvent)
    (hq : h'.ev.queue = h.ev.queue ++ es) : h'.queue = h.queue ++ es := by
  unfold queue
  rw [hin, hq]
  split
  · rename_i h
    rw [List.tail_append_of_ne_nil (hok h)]
  · rfl

/-- An event that is posted is still to be dispatched. -/
theorem Hub.mem_queue_of_post {h h' : Hub} (hok : h.inEvent = true → h.ev.queue ≠ [])
    {e : EventId × Bool} (hin : h'.inEvent = h.inEvent) (hq : h'.ev.queue = h.ev.queue ++ [e]) :
    e ∈ h'.queue := by
  rw [Hub.queue_append hok hin hq]
  simp

theorem Hub.mem_ev_queue {h : Hub} {e : EventId × Bool} (he : e ∈ h.queue) : e ∈ h.ev.queue := by
  unfold queue at he
  split at he
  · exact List.mem_of_mem_tail he
  · exact he

theorem queue_step (hok : QueueOk s) (hs : Step s s') : QueueStep s s' ∧ QueueOk s' := by
  have hkeep (es : List (EventId × Bool)) (hin : s'.hub.inEvent = s.hub.inEvent)
      (hq : s'.hub.ev.queue = s.hub.ev.queue ++ es) : QueueStep s s' ∧ QueueOk s' := by
    refine ⟨.keep es (Hub.queue_append hok hin hq), fun h => ?_⟩
    rw [hq]
    exact List.append_ne_nil_of_left_ne_nil (hok (hin ▸ h)) es
  cases hs with
  | @req c p p' h' _ _ hr =>
      cases hr with
      | @append b _ _ _ _ =>
          cases b with
          | true => exact hkeep [(p.evRsp, true)] rfl rfl
          | false => exact hkeep [] rfl (by simp)
      | final _ _ => exact hkeep [(p.evRsp, false)] rfl rfl
      | _ => exact hkeep [] rfl (by simp)
  | @rsp c p p' h' _ _ hr =>
      cases hr with
      | exit _ _ =>
          by_cases hb : p.reqBlocked = true
          · exact hkeep [(p.evReq, false)] rfl (by simp [hb])
          · exact hkeep [] rfl (by simp [hb])
      | _ => exact hkeep [] rfl (by simp)
  | @wakeEvent eid d _ _ _ hrun hin hq hx _ _ =>
      refine ⟨.wake (e := (eid, d)) ?_ hx hrun rfl, fun _ => ?_⟩
      · simp [Hub.queue, hin, hq]
      · rw [hq]
        exact List.cons_ne_nil _ _
  | @noHandler eid d _ hrun hin hq hx =>
      refine ⟨.drop (e := (eid, d)) ?_ hx, fun _ => ?_⟩
      · simp [Hub.queue, hin, hq]
      · rw [hq]
        exact List.cons_ne_nil _ _
  | eventRet _ hin =>
      exact ⟨.keep [] (by simp [Hub.queue, hin]), fun h => by simp at h⟩
  | accept _ _ _ _ =>
      exact hkeep [(s.hub.ev.idMax, true), (s.hub.ev.idMax + 1, true)] rfl
        (by simp [Events.newClient])
  | @dnsRead eid _ _ _ => exact hkeep [(eid, false)] rfl rfl
  | exit _ _ _ => exact hkeep [] rfl (by simp)
  | _ => exact hkeep [] rfl (by simp)

/-- An event stays in the queue until the coroutine registered for it is woken, and only what
    has been in front of it still is. -/
theorem event_behind (hok : QueueOk s) (hs : Step s s') {x : Co} {e : EventId × Bool}
    {q₁ q₂ : List (EventId × Bool)} (hh : s.hub.ev.handlers e.1 = some x)
    (hrun : s'.hub.running = some x → s.hub.running = some x) (hq : s.hub.queue = q₁ ++ e :: q₂) :
    ∃ q₁' q₂', s'.hub.queue = q₁' ++ e :: q₂' ∧ ∀ a ∈ q₁', a ∈ q₁ := by
  cases (queue_step hok hs).1 with
  | keep es hq' => exact ⟨q₁, q₂ ++ es, by rw [hq', hq]; simp, fun _ ha => ha⟩
  | wake hq' hx hnone hrun' =>
      rw [hq] at hq'
      cases q₁ with
      | nil =>
          simp only [List.nil_append, List.cons.injEq] at hq'
          rw [← hq'.1, hh, Option.some.injEq] at hx
          rw [← hx] at hrun'
          exact absurd (hnone.symm.trans (hrun hrun')) (by simp)
      | cons a q₁ =>
          simp only [List.cons_append, List.cons.injEq] at hq'
          exact ⟨q₁, q₂, hq'.2.symm, fun _ ha => List.mem_cons_of_mem _ ha⟩
  | drop hq' hx =>
      rw [hq] at hq'
      cases q₁ with
      | nil =>
          simp only [List.nil_append, List.cons.injEq] at hq'
          rw [← hq'.1, hh] at hx
          exact absurd hx (by simp)
      | cons a q₁ =>
          simp only [List.cons_append, List.cons.injEq] at hq'
          exact ⟨q₁, q₂, hq'.2.symm, fun _ ha => List.mem_cons_of_mem _ ha⟩

theorem event_kept (hok : QueueOk s) (hs : Step s s') {x : Co} {eid : EventId} {d : Bool}
    (hh : s.hub.ev.handlers eid = some x)
    (hrun : s'.hub.running = some x → s.hub.running = some x) (he : (eid, d) ∈ s.hub.queue) :
    (eid, d) ∈ s'.hub.queue := by
  obtain ⟨q₁, q₂, hq⟩ := List.mem_iff_append.mp he
  obtain ⟨q₁', q₂', hq', -⟩ := event_behind hok hs (e := (eid, d)) hh hrun hq
  rw [hq']
  exact List.mem_append_right _ List.mem_cons_self

/-- Who posts an event of `eid`. -/
inductive PostedBy (s : State) (eid : EventId) : Prop where
  | req {c : ClientId} {p : Peer} : s.hub.running = some ⟨c, .req⟩ → s.peers c = some p →
      eid = p.evRsp → PostedBy s eid
  | rsp {c : ClientId} {p : Peer} : s.hub.running = some ⟨c, .rsp⟩ → s.peers c = some p →
      eid = p.evReq → PostedBy s eid
  | accept : s.hub.ev.idMax.toNat ≤ eid.toNat → PostedBy s eid
  | dns : s.hub.sigPending = some eid → PostedBy s eid

/-- An event in the queue has been there before, or has been posted. -/
theorem queue_origin (hok : QueueOk s) (hw : NoWrap s) (hs : Step s s') {e : EventId × Bool}
    (he : e ∈ s'.hub.queue) : e ∈ s.hub.queue ∨ PostedBy s e.1 := by
  have hpost (es : List (EventId × Bool)) (hin : s'.hub.inEvent = s.hub.inEvent)
      (hev : s'.hub.ev.queue = s.hub.ev.queue ++ es) (hes : ∀ e ∈ es, PostedBy s e.1) :
      e ∈ s.hub.queue ∨ PostedBy s e.1 := by
    rw [Hub.queue_append hok hin hev] at he
    exact (List.mem_append.mp he).imp_right (hes e)
  have hnone (hin : s'.hub.inEvent = s.hub.inEvent) (hev : s'.hub.ev.queue = s.hub.ev.queue) :
      e ∈ s.hub.queue ∨ PostedBy s e.1 := hpost [] hin (by simp [hev]) (by simp)
  cases hs with
  | @req c p _ _ hrun hp hr =>
      have hrsp : PostedBy s p.evRsp := .req hrun hp rfl
      cases hr with
      | @append b _ _ _ _ =>
          cases b with
          | true => exact hpost [(p.evRsp, true)] rfl rfl (by simpa using hrsp)
          | false => exact hnone rfl rfl
      | final _ _ => exact hpost [(p.evRsp, false)] rfl rfl (by simpa using hrsp)
      | _ => exact hnone rfl rfl
  | @rsp c p _ _ hrun hp hr =>
      have hreq : PostedBy s p.evReq := .rsp hrun hp rfl
      cases hr with
      | exit _ _ =>
          by_cases hb : p.reqBlocked = true
          · exact hpost [(p.evReq, false)] rfl (by simp [hb]) (by simpa using hreq)
          · exact hnone rfl (by simp [hb])
      | _ => exact hnone rfl rfl
  | accept _ _ _ _ =>
      have h₁ : (s.hub.ev.idMax + 1).toNat = s.hub.ev.idMax.toNat + 1 :=
        toNat_add_one (Nat.lt_of_succ_lt hw)
      refine hpost [(s.hub.ev.idMax, true), (s.hub.ev.idMax + 1, true)] rfl
        (by simp [Events.newClient]) ?_
      intro e he
      simp only [List.mem_cons, List.not_mem_nil, or_false] at he
      rcases he with rfl | rfl
      · exact .accept (Nat.le_refl _)
      · refine .accept ?_
        show s.hub.ev.idMax.toNat ≤ (s.hub.ev.idMax + 1).toNat
        omega
  | @dnsRead eid _ _ hsig => exact hpost [(eid, false)] rfl rfl (by simpa using .dns hsig)
  | wakeEvent _ hin hq _ _ _ =>
      simp only [Hub.queue, hin, hq, if_true, List.tail_cons] at he ⊢
      exact .inl (List.mem_cons_of_mem _ he)
  | noHandler _ hin hq _ =>
      simp only [Hub.queue, hin, hq, if_true, List.tail_cons] at he ⊢
      exact .inl (List.mem_cons_of_mem _ he)
  | eventRet _ hin => exact .inl (by simpa [Hub.queue, hin] using he)
  | _ => exact hnone rfl rfl

-- ============================================================================
-- The exit
-- ============================================================================

/-- Nothing runs after the exit. -/
def ExitOk (s : State) : Prop :=
  s.hub.exited = true → s.hub.running = none ∧ ∀ eid, s.hub.ev.handlers eid = none

theorem exitOk_step (hx : ExitOk s) (hs : Step s s') : ExitOk s' := by
  intro hexit
  cases hs with
  | req hrun _ hr =>
      have hex : s.hub.exited = true := by cases hr <;> exact hexit
      exact absurd ((hx hex).1.symm.trans hrun) (by simp)
  | rsp hrun _ hr =>
      have hex : s.hub.exited = true := by cases hr <;> exact hexit
      exact absurd ((hx hex).1.symm.trans hrun) (by simp)
  | wakeEvent _ _ _ hh _ _ => exact absurd (((hx hexit).2 _).symm.trans hh) (by simp)
  | wakeIo _ _ hex _ _ _ => exact absurd (hexit.symm.trans hex) (by simp)
  | accept _ _ hex _ => exact absurd (hexit.symm.trans hex) (by simp)
  | exit hrun _ _ => exact ⟨hrun, fun _ => rfl⟩
  | _ => exact hx hexit

theorem not_exited_of_running (hx : ExitOk s) (hrun : s.hub.running ≠ none) :
    s.hub.exited = false := by
  rw [← Bool.not_eq_true]
  exact fun hexit => hrun (hx hexit).1

/-- A process that has exited stays so. -/
theorem exited_mono (hs : Step s s') (hexit' : s'.hub.exited = false) : s.hub.exited = false := by
  cases hs with
  | req _ _ hr => cases hr <;> exact hexit'
  | rsp _ _ hr => cases hr <;> exact hexit'
  | exit _ _ _ => exact absurd hexit' (by simp)
  | _ => exact hexit'

/-- The process exits when the queue is empty and no coroutine runs. -/
theorem exited_step (hs : Step s s') (hexit : s.hub.exited = false) :
    s'.hub.exited = false ∨ s.hub.queue = [] ∧ s.hub.running = none := by
  cases hs with
  | exit hrun hin hq => exact .inr ⟨by simp [Hub.queue, hin, hq], hrun⟩
  | req _ _ hr => cases hr <;> exact .inl hexit
  | rsp _ _ hr => cases hr <;> exact .inl hexit
  | _ => exact .inl hexit

end Notify
end HttpProxy
