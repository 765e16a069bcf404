/-
  HttpProxy.Notify.Tokens

  The events of an id are accounted for: `Hub.tok h eid` counts those in the
  queue and those a DNS lookup will still put there.  `tok_step` says which steps
  add to them.
-/

import HttpProxy.Notify.Waits

namespace HttpProxy
namespace Notify

variable {s s' : State}

-- ============================================================================
-- Tokens
-- ============================================================================

def Hub.tok (h : Hub) (eid : EventId) : Nat :=
  h.queue.countP (·.1 = eid) + h.flight.count eid + if h.sigPending = some eid then 1 else 0

theorem Hub.mem_queue_of_tok {h : Hub} {eid : EventId} {d : Bool} (he : (eid, d) ∈ h.queue) :
    0 < h.tok eid := by
  have hpos : 0 < h.queue.countP (·.1 = eid) := List.countP_pos_iff.mpr ⟨(eid, d), he, by simp⟩
  unfold tok
  omega

/-- Posting adds the posted events. -/
theorem Hub.tok_post {h h' : Hub} (hok : h.inEvent = true → h.ev.queue ≠ [])
    {es : List (EventId × Bool)} (hin : h'.inEvent = h.inEvent)
    (hq : h'.ev.queue = h.ev.queue ++ es) (hf : h'.flight = h.flight)
    (hsig : h'.sigPending = h.sigPending) (eid : EventId) :
    h'.tok eid = h.tok eid + es.countP (·.1 = eid) := by
  unfold tok
  rw [Hub.queue_append hok hin hq, List.countP_append, hf, hsig]
  omega

/-- Dispatching the head event uses its token up. -/
theorem Hub.tok_dispatch {h h' : Hub} {eid₀ : EventId} {d : Bool} {q : List (EventId × Bool)}
    (hin : h.inEvent = false) (hq : h.ev.queue = (eid₀, d) :: q) (hin' : h'.inEvent = true)
    (hq' : h'.ev.queue = h.ev.queue) (hf : h'.flight = h.flight)
    (hsig : h'.sigPending = h.sigPending) (eid : EventId) :
    h'.tok eid + (if eid₀ = eid then 1 else 0) = h.tok eid := by
  have hqueue : h.queue = (eid₀, d) :: h'.queue := by
    simp [queue, hin, hin', hq, hq']
  unfold tok
  rw [hqueue, hf, hsig, List.countP_cons]
  simp only [decide_eq_true_eq]
  omega

/-- A lookup that begins adds one. -/
theorem Hub.tok_lookup {h h' : Hub} {eid₀ : EventId} (hq : h'.queue = h.queue)
    (hf : h'.flight = h.flight ++ [eid₀]) (hsig : h'.sigPending = h.sigPending) (eid : EventId) :
    h'.tok eid = h.tok eid + if eid₀ = eid then 1 else 0 := by
  have hc : [eid₀].count eid = if eid₀ = eid then 1 else 0 := by
    by_cases heq : eid₀ = eid <;> simp [heq]
  unfold tok
  rw [hq, hf, hsig, List.count_append, hc]
  omega

/-- The signal of a lookup becomes its event. -/
theorem Hub.tok_dnsRead {h h' : Hub} (hok : h.inEvent = true → h.ev.queue ≠ []) {eid₀ : EventId}
    {d : Bool} (hin : h'.inEvent = h.inEvent) (hq : h'.ev.queue = h.ev.queue ++ [(eid₀, d)])
    (hf : h'.flight = h.flight) (hsig : h.sigPending = some eid₀) (hsig' : h'.sigPending = none)
    (eid : EventId) : h'.tok eid = h.tok eid := by
  have hc : [(eid₀, d)].countP (·.1 = eid) = if eid₀ = eid then 1 else 0 := by
    by_cases heq : eid₀ = eid <;> simp [heq]
  unfold tok
  rw [Hub.queue_append hok hin hq, List.countP_append, hc, hf, hsig, hsig']
  simp only [Option.some.injEq, reduceCtorEq, if_false]
  omega

/-- A completed lookup moves its token, or loses it to a pending signal. -/
theorem Hub.tok_dnsDone (h : Hub) {eid₀ : EventId} (hmem : eid₀ ∈ h.flight) (eid : EventId) :
    { h with
      flight := h.flight.erase eid₀
      sigPending := some (h.sigPending.getD eid₀) : Hub }.tok eid ≤ h.tok eid := by
  have hq : { h with
      flight := h.flight.erase eid₀
      sigPending := some (h.sigPending.getD eid₀) : Hub }.queue = h.queue := rfl
  have hpos : 0 < h.flight.count eid₀ := List.count_pos_iff.mpr hmem
  unfold tok
  rw [hq]
  cases hsig : h.sigPending with
  | none =>
      by_cases heq : eid₀ = eid
      · subst heq
        simp only [List.count_erase_self, Option.getD_none, if_true, reduceCtorEq, if_false]
        omega
      · simp only [List.count_erase_of_ne (Ne.symm heq), Option.getD_none, Option.some.injEq, heq,
          if_false, reduceCtorEq, Nat.le_refl]
  | some sig =>
      have hle := (List.erase_sublist (a := eid₀) (l := h.flight)).count_le eid
      simp only [Option.getD_some]
      omega

/-- What a step does to the tokens of an id. -/
inductive TokStep (s s' : State) (eid : EventId) : Prop where
  | le : s'.hub.tok eid ≤ s.hub.tok eid → TokStep s s' eid
  /-- a new id -/
  | new : s.hub.ev.idMax.toNat ≤ eid.toNat → eid.toNat < s'.hub.ev.idMax.toNat →
      s'.hub.tok eid ≤ s.hub.tok eid + 1 → TokStep s s' eid
  /-- a notice for a response coroutine -/
  | rsp {c : ClientId} {p : Peer} : s.peers c = some p → eid = p.evRsp →
      s.hub.running = some ⟨c, .req⟩ → TokStep s s' eid
  /-- the farewell of a response coroutine -/
  | req {c : ClientId} {p p' : Peer} : s.peers c = some p → eid = p.evReq → p.rsp = .exit →
      p.reqBlocked = true → s'.peers c = some p' → p'.rsp = .finished →
      s'.hub.tok eid ≤ s.hub.tok eid + 1 → TokStep s s' eid

theorem tok_step (hq : QueueOk s) (hw : NoWrap s) (hs : Step s s') (eid : EventId) :
    TokStep s s' eid := by
  have h₁ : (s.hub.ev.idMax + 1).toNat = s.hub.ev.idMax.toNat + 1 :=
    toNat_add_one (Nat.lt_of_succ_lt hw)
  have h₂ : (s.hub.ev.idMax + 1 + 1).toNat = s.hub.ev.idMax.toNat + 2 := toNat_add_two hw
  have hsame (h : s'.hub.queue = s.hub.queue) (hf : s'.hub.flight = s.hub.flight)
      (hsig : s'.hub.sigPending = s.hub.sigPending) : TokStep s s' eid := by
    refine .le (Nat.le_of_eq ?_)
    unfold Hub.tok
    rw [h, hf, hsig]
  have hpost {eid₀ : EventId} {d : Bool} (hin : s'.hub.inEvent = s.hub.inEvent)
      (hev : s'.hub.ev.queue = s.hub.ev.queue ++ [(eid₀, d)]) (hf : s'.hub.flight = s.hub.flight)
      (hsig : s'.hub.sigPending = s.hub.sigPending) :
      s'.hub.tok eid = s.hub.tok eid + if eid₀ = eid then 1 else 0 := by
    rw [Hub.tok_post hq hin hev hf hsig]
    simp [List.countP_singleton]
  have hlookup (hqueue : s'.hub.queue = s.hub.queue)
      (hf : s'.hub.flight = s.hub.flight ++ [s.hub.ev.idMax])
      (hsig : s'.hub.sigPending = s.hub.sigPending)
      (hmax : s'.hub.ev.idMax = s.hub.ev.idMax + 1) : TokStep s s' eid := by
    have htok := Hub.tok_lookup hqueue hf hsig eid
    by_cases heq : s.hub.ev.idMax = eid
    · rw [if_pos heq] at htok
      refine .new (Nat.le_of_eq (by rw [heq])) ?_ (Nat.le_of_eq htok)
      rw [hmax, h₁, heq]
      exact Nat.lt_succ_self _
    · rw [if_neg heq] at htok
      exact .le (Nat.le_of_eq htok)
  have haccept (hin : s'.hub.inEvent = s.hub.inEvent)
      (hev : s'.hub.ev.queue
        = s.hub.ev.queue ++ [(s.hub.ev.idMax, true), (s.hub.ev.idMax + 1, true)])
      (hf : s'.hub.flight = s.hub.flight) (hsig : s'.hub.sigPending = s.hub.sigPending)
      (hmax : s'.hub.ev.idMax = s.hub.ev.idMax + 1 + 1) : TokStep s s' eid := by
    have htok := Hub.tok_post hq hin hev hf hsig eid
    have hne : s.hub.ev.idMax ≠ s.hub.ev.idMax + 1 := by
      intro heq
      rw [← heq] at h₁
      omega
    by_cases heq : s.hub.ev.idMax = eid
    · subst heq
      refine .new (Nat.le_refl _) (by rw [hmax, h₂]; omega) ?_
      rw [htok]
      simp [hne.symm]
    · by_cases heq' : s.hub.ev.idMax + 1 = eid
      · subst heq'
        refine .new (by omega) (by rw [hmax, h₂, h₁]; omega) ?_
        rw [htok]
        simp [hne]
      · refine .le ?_
        rw [htok]
        simp [heq, heq']
  have hdispatch {eid₀ : EventId} {d : Bool} {q : List (EventId × Bool)}
      (hin : s.hub.inEvent = false) (hq : s.hub.ev.queue = (eid₀, d) :: q)
      (hin' : s'.hub.inEvent = true) (hq' : s'.hub.ev.queue = s.hub.ev.queue)
      (hf : s'.hub.flight = s.hub.flight) (hsig : s'.hub.sigPending = s.hub.sigPending) :
      TokStep s s' eid :=
    .le (Nat.le_of_add_right_le (Nat.le_of_eq (Hub.tok_dispatch hin hq hin' hq' hf hsig eid)))
  have hread {eid₀ : EventId} {d : Bool} (hin : s'.hub.inEvent = s.hub.inEvent)
      (hev : s'.hub.ev.queue = s.hub.ev.queue ++ [(eid₀, d)]) (hf : s'.hub.flight = s.hub.flight)
      (hsig : s.hub.sigPending = some eid₀) (hsig' : s'.hub.sigPending = none) :
      TokStep s s' eid :=
    .le (Nat.le_of_eq (Hub.tok_dnsRead hq hin hev hf hsig hsig' eid))
  cases hs with
  | @req c p p' h' hrun hp hr =>
      have hrsp {d : Bool} (hin : h'.inEvent = s.hub.inEvent)
          (hev : h'.ev.queue = s.hub.ev.queue ++ [(p.evRsp, d)]) (hf : h'.flight = s.hub.flight)
          (hsig : h'.sigPending = s.hub.sigPending) :
          TokStep s { s.setPeer c p' with hub := h' } eid := by
        by_cases heq : eid = p.evRsp
        · exact .rsp hp heq hrun
        · refine .le (Nat.le_of_eq ?_)
          rw [hpost hin hev hf hsig, if_neg (Ne.symm heq)]
          rfl
      cases hr with
      | lookup _ => exact hlookup rfl rfl rfl rfl
      | @append b _ _ _ _ =>
          cases b with
          | true => exact hrsp rfl rfl rfl rfl
          | false => exact hsame rfl rfl rfl
      | final _ _ => exact hrsp rfl rfl rfl rfl
      | _ => exact hsame rfl rfl rfl
  | @rsp c p p' h' hrun hp hr =>
      cases hr with
      | exit hpc _ =>
          by_cases hb : p.reqBlocked = true
          · have htok := @hpost p.evReq false rfl (by simp [hb]) rfl rfl
            by_cases heq : eid = p.evReq
            · refine .req hp heq hpc hb (setPeer_self s c _) rfl ?_
              rw [htok]
              split <;> omega
            · refine .le (Nat.le_of_eq ?_)
              rw [htok, if_neg (Ne.symm heq)]
              rfl
          · refine hsame ?_ rfl rfl
            simp [Hub.queue, hb]
      | _ => exact hsame rfl rfl rfl
  | wakeEvent _ hin hq' _ _ _ => exact hdispatch hin hq' rfl rfl rfl rfl
  | noHandler _ hin hq' _ => exact hdispatch hin hq' rfl rfl rfl rfl
  | eventRet _ hin => exact hsame (by simp [Hub.queue, hin]) rfl rfl
  | accept _ _ _ _ =>
      exact haccept rfl (by simp [Events.newClient]) rfl rfl (by simp [Events.newClient])
  | dnsRead _ _ hsig => exact hread rfl rfl rfl hsig rfl
  | dnsDone hmem => exact .le (Hub.tok_dnsDone s.hub hmem eid)
  | exit _ _ _ => exact hsame rfl rfl rfl
  | _ => exact hsame rfl rfl rfl

end Notify
end HttpProxy
