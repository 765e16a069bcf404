/-
  HttpProxy.Queue.Tunnel

  A CONNECT request is the last one of its client (`connect_last`).  Once it has been
  appended the request coroutine is in the tunnel or on its way out (`ReqPc.Over`),
  from where it does not come back to the head of its loop: what the client sends
  behind it is never read as a request.
-/

import HttpProxy.Queue.Forward
import HttpProxy.Queue.Labels

namespace HttpProxy

open Lib

/-- The request coroutine answers or relays a CONNECT request, or ends. -/
def ReqPc.Over : ReqPc → Prop
  | .io (.ok200 _ _) _ => True
  | .io (.tunnel _ _) _ => True
  | .io (.badGateway _ _) _ => True
  | .done => True
  | .final => True
  | .cleanup => True
  | .finished => True
  | _ => False

/-- `e` is the last request of the client: no other was appended or begun after it. -/
structure Client.EndsWith (cl : Client) (e : Entry) : Prop where
  ended : cl.req.Over
  last : cl.hist.appended.getLast? = some e
  no : e.no = cl.hist.seq

/-- A CONNECT request that was appended is the last one. -/
def ConnectLast (cl : Client) : Prop :=
  ∀ e ∈ cl.hist.appended, (cl.mem.reqs e.req).kind = .connect → cl.EndsWith e

section

variable {l l' : Local} {cl : Client} {j : ReqIx} {s : ConnIx}

theorem ReqPc.over_io {α : Type} (k : ReqK α) (p p' : Io α) :
    (ReqPc.io k p).Over ↔ (ReqPc.io k p').Over := by
  cases k <;> exact Iff.rfl

/-- Nothing is appended, and a coroutine that is past its last request stays there. -/
theorem ConnectLast.keep (h : ConnectLast l.cl) (hmatch : HeadsMatch l.cl)
    (happended : l'.cl.hist.appended = l.cl.hist.appended)
    (hkind : ∀ k < l.cl.mem.nreq, (l'.cl.mem.reqs k).kind = (l.cl.mem.reqs k).kind)
    (hgo : l.cl.req.Over → l'.cl.req.Over ∧ l'.cl.hist.seq = l.cl.hist.seq) :
    ConnectLast l'.cl := by
  intro e he hconnect
  rw [happended] at he
  rw [hkind e.req (hmatch.known e he)] at hconnect
  have hends := h e he hconnect
  obtain ⟨hover, hseq⟩ := hgo hends.ended
  exact ⟨hover, happended ▸ hends.last, hends.no.trans hseq.symm⟩

/-- A request is appended where none of the others is a CONNECT. -/
theorem ConnectLast.append (j : ReqIx) (s : ConnIx)
    (hnone : ∀ e ∈ l.cl.hist.appended, (l.cl.mem.reqs e.req).kind ≠ .connect)
    (happended : l'.cl.hist.appended =
      l.cl.hist.appended ++ [{ server := s, req := j, no := l.cl.hist.seq }])
    (hkind : ∀ k, (l'.cl.mem.reqs k).kind = (l.cl.mem.reqs k).kind)
    (hseq : l'.cl.hist.seq = l.cl.hist.seq)
    (hover : (l.cl.mem.reqs j).kind = .connect → l'.cl.req.Over) : ConnectLast l'.cl := by
  intro e he hconnect
  rw [hkind] at hconnect
  rw [happended, List.mem_append, List.mem_singleton] at he
  rcases he with hold | rfl
  · exact absurd hconnect (hnone e hold)
  · refine ⟨hover hconnect, ?_, hseq.symm⟩
    rw [happended, List.getLast?_append]
    rfl

/-- Before a coroutine is past its last request, nothing it has appended is a CONNECT. -/
theorem ConnectLast.none (h : ConnectLast cl) (hover : ¬ cl.req.Over) :
    ∀ e ∈ cl.hist.appended, (cl.mem.reqs e.req).kind ≠ .connect :=
  fun e he hconnect => hover (h e he hconnect).ended

theorem gotServer_last
    (hnone : ∀ e ∈ l.cl.hist.appended, (l.cl.mem.reqs e.req).kind ≠ .connect) :
    ConnectLast (l.gotServer j s).cl := by
  have hgot := l.gotServer_cases j s
  generalize l.gotServer j s = l₂ at hgot ⊢
  cases hgot with
  | http hhttp =>
      intro e he hconnect
      refine absurd ?_ (hnone e (by simpa using he))
      exact (Local.SameHeads.kind (l.withHost_heads j) e.req).symm.trans hconnect
  | connect hconnect =>
      have hheads : l.SameHeads (l.connected j s) := by simp [Local.SameHeads]
      exact .append j s hnone (by simp) (Local.SameHeads.kind hheads) (by simp) fun _ => trivial

theorem gotNewConn_last {i : ConnIx}
    (hnone : ∀ e ∈ l.cl.hist.appended, (l.cl.mem.reqs e.req).kind ≠ .connect) :
    ConnectLast (l.gotNewConn j i).cl := by
  have hheads : l.SameHeads ((l.pooled i).increfConn i) := by simp [Local.SameHeads]
  rw [Local.gotNewConn_eq]
  refine gotServer_last fun e he => ?_
  rw [Local.SameHeads.kind hheads]
  exact hnone e (by simpa using he)

theorem connectLast_reqStep (hmatch : HeadsMatch l.cl) (h : ConnectLast l.cl) (hs : ReqCase l l') :
    ConnectLast l'.cl := by
  cases hs with
  | @io α k p p' l₁ hreq hio =>
      refine h.keep hmatch hio.sameList.1.appended
        (fun k _ => Local.SameHeads.kind hio.sameReqs.1.1 k) fun hover => ?_
      rw [hreq] at hover
      exact ⟨(ReqPc.over_io k p p').mp hover, hio.said_req.1⟩
  | refused hreq =>
      refine h.keep hmatch (by simp) (fun k hk => congrArg Prod.fst (l.begun_head _ _ hk)) ?_
      simp [hreq, ReqPc.Over]
  | dispatch hreq hkind hparse =>
      refine h.keep hmatch (by simp) (fun k hk => congrArg Prod.fst (l.begun_head _ _ hk)) ?_
      simp [hreq, ReqPc.Over]
  | @forwarded j s head hreq =>
      have hwrites := hmatch.writes
      rw [hreq] at hwrites
      have hheads : l.SameHeads (l.forwarded j s) := by simp [Local.SameHeads]
      refine .append j s (h.none ?_) (by simp) (Local.SameHeads.kind hheads) (by simp)
        fun hconnect => ?_
      · simp [hreq, ReqPc.Over]
      · exact absurd (hwrites.2.symm.trans hconnect) (by simp)
  | reuse hreq hfind hstat =>
      have hnone := h.none (by simp [hreq, ReqPc.Over])
      refine gotServer_last fun e he => ?_
      rw [Local.SameHeads.kind (l.increfConn_heads _)]
      exact hnone e (by simpa using he)
  | newConn hreq hfd =>
      have hnone := h.none (by simp [hreq, ReqPc.Over])
      refine gotNewConn_last fun e he => ?_
      rw [Local.SameHeads.kind (l.newConn_heads _ _ _)]
      exact hnone e (by simpa using he)
  | connected hreq hret => exact gotNewConn_last (h.none (by simp [hreq, ReqPc.Over]))
  | done hreq =>
      have hdone : l.reqDone.cl.hist = l.cl.hist ∧ l.reqDone.cl.mem = l.cl.mem ∧
          l.reqDone.cl.req.Over := by
        unfold Local.reqDone
        dsimp only
        split <;> exact ⟨rfl, rfl, trivial⟩
      obtain ⟨hhist, hmem, hover⟩ := hdone
      exact h.keep hmatch (by rw [hhist]) (fun _ _ => by rw [hmem]) fun _ => ⟨hover, by rw [hhist]⟩
  | cleanup hreq =>
      have hheads : l.SameHeads l.reqCleanup := by
        simp [Local.SameHeads, Local.reqCleanup, Local.leave]
      refine h.keep hmatch ?_ (fun k _ => Local.SameHeads.kind hheads k) fun _ => ⟨?_, ?_⟩
      all_goals simp [Local.reqCleanup, Local.leave, ReqPc.Over]
  | @resolved j eid res hreq =>
      refine h.keep hmatch (by simp) (fun k _ => Local.SameHeads.kind ?_ k) fun hover => ?_
      · simp [Local.SameHeads]
      · rw [hreq] at hover
        exact hover.elim
  | _ =>
      refine h.keep hmatch ?_ (fun k _ => Local.SameHeads.kind ?_ k) ?_
      all_goals simp [Local.SameHeads, ReqPc.Over, *]

/-- The response coroutine appends nothing, and leaves the other one where it is. -/
theorem connectLast_rspStep (hmatch : HeadsMatch l.cl) (h : ConnectLast l.cl) (hs : RspCase l l') :
    ConnectLast l'.cl := by
  obtain ⟨hsame, -, -⟩ := hs.sameForwards
  refine h.keep hmatch hsame.appended hsame.kind fun hover => ⟨by rwa [hs.req_eq], ?_⟩
  cases hs with
  | io hdead hrsp hio => exact hio.said_rsp.1
  | exit hdead hrsp =>
      unfold Local.rspExit
      dsimp only
      split <;> simp [Local.leave]
  | sleep hdead hrsp hhead => rfl
  | _ => simp [Local.rspPop]

theorem connectLast_resume (h : ConnectLast cl) (side : Side) (ret : Int) :
    ConnectLast (cl.resume side ret) := by
  cases side with
  | rsp =>
      show ConnectLast (cl.resumeRsp ret)
      unfold Client.resumeRsp
      dsimp only
      split <;> exact fun e he hconnect => ⟨(h e he hconnect).ended, (h e he hconnect).last,
        (h e he hconnect).no⟩
  | req =>
      intro e he hconnect
      obtain ⟨hmem, hhist⟩ : (cl.resumeReq ret).mem = cl.mem ∧
          (cl.resumeReq ret).hist = cl.hist := by
        unfold Client.resumeReq
        dsimp only
        split <;> exact ⟨rfl, rfl⟩
      have he' : e ∈ cl.hist.appended := hhist ▸ he
      have hconnect' : (cl.mem.reqs e.req).kind = .connect := hmem ▸ hconnect
      obtain ⟨hover, hlast, hno⟩ := h e he' hconnect'
      refine ⟨?_, ?_, ?_⟩
      · show (cl.resumeReq ret).req.Over
        unfold Client.resumeReq
        dsimp only
        split
        · rename_i hreq
          rw [hreq] at hover
          exact hover.elim
        · rename_i k p hreq
          rw [hreq] at hover
          exact (ReqPc.over_io k p _).mp hover
        · rename_i hreq
          rw [hreq] at hover
          exact hover.elim
        · rename_i hreq
          rw [hreq] at hover
          exact hover.elim
        · trivial
        · exact hover
      · show (cl.resumeReq ret).hist.appended.getLast? = some e
        rw [hhist]
        exact hlast
      · show e.no = (cl.resumeReq ret).hist.seq
        rw [hhist]
        exact hno

end

theorem connectLast_invariant :
    ClientInvariant (fun _ _ _ => true) HeadsMatch ConnectLast where
  new := fun _ _ _ _ _ he => absurd he List.not_mem_nil
  req := fun _ _ _ _ _ hmatch h hs => connectLast_reqStep hmatch h hs
  rsp := fun _ _ _ _ _ hmatch h hs => connectLast_rspStep hmatch h hs
  resume := fun _ side ret _ _ h => connectLast_resume h side ret
  err := fun _ _ _ _ h e he hconnect => ⟨(h e he hconnect).ended, (h e he hconnect).last,
    (h e he hconnect).no⟩

/-- In every reachable state, a CONNECT request among those a client has appended is the last of
    them and the last one the client has begun: the request coroutine is in the tunnel or on its
    way out, and no byte behind the head of the CONNECT request has been read as a request. -/
theorem connect_last {w : World} (h : w.Reachable) {c : ClientId} {cl : Client}
    (hcl : w.clients c = some cl) {e : Entry} (he : e ∈ cl.hist.appended)
    (hconnect : (cl.mem.reqs e.req).kind = .connect) :
    cl.hist.appended.getLast? = some e ∧ e.no = cl.hist.seq ∧ cl.req.Over := by
  have hlast : ConnectLast cl :=
    World.client_invariant connectLast_invariant (fun w ch _ => World.coOk_true w ch)
      (fun _ hr _ _ hcl => World.headsMatch hr hcl) h hcl
  have hends := hlast e he hconnect
  exact ⟨hends.last, hends.no, hends.ended⟩

/-- The only request of a client that asks for a tunnel is its last one. -/
theorem connect_last_one : ∃ (w : World) (cl : Client) (e : Entry), w.Reachable ∧
    w.clients 0 = some cl ∧ (cl.mem.reqs e.req).kind = .connect ∧ e.no = cl.hist.seq ∧
      cl.req.Over := by
  have hd : (World.driveInit (fun _ _ => true) 300 connectRequest).any (fun w =>
      (w.clients 0).any fun cl =>
        cl.hist.appended.any fun e => (cl.mem.reqs e.req).kind = .connect) = true := by
    decide +kernel
  obtain ⟨w, hw, hp⟩ := World.reachable_of_drive hd
  obtain ⟨cl, hcl, hp⟩ := (Option.any_eq_true _ _).mp hp
  obtain ⟨e, he, hkind⟩ := List.any_eq_true.mp hp
  have hconnect : (cl.mem.reqs e.req).kind = .connect := by simpa using hkind
  obtain ⟨-, hno, hover⟩ := connect_last hw hcl he hconnect
  exact ⟨w, cl, e, hw, hcl, hconnect, hno, hover⟩

end HttpProxy
