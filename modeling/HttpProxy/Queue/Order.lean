/-
  HttpProxy.Queue.Order

  In which order a client receives its answers.  The response coroutine serves the
  requests in the order they were appended, one call of a handler after the other, and
  the request coroutine only speaks about the request it is at; so a chunk is followed by
  one for an earlier request in one case only: an answer of the request coroutine itself
  that has overtaken the responses still queued (`answers_in_order`).
-/

import HttpProxy.Queue.Labels

namespace HttpProxy

open Lib

/-- `y` answers no earlier request than `x`, and no earlier call of the handler for the same. -/
structure Chunk.Before (x y : Chunk) : Prop where
  no : x.no ≤ y.no
  call : x.no = y.no → ∀ n a m b, x.src = .rsp n a → y.src = .rsp m b → n ≤ m

/-- `x` comes from the request coroutine and `y` from the response coroutine. -/
def Chunk.Overtakes (x y : Chunk) : Prop := ∃ a n b, x.src = .req a ∧ y.src = .rsp n b

/-- What the client has received is in order, but for answers that have overtaken others. -/
structure InOrder (cl : Client) : Prop where
  pairwise : cl.hist.out.Pairwise fun x y => x.Before y ∨ x.Overtakes y
  le : ∀ x ∈ cl.hist.out, x.no ≤ cl.hist.seq

section

variable {l l' : Local} {cl cl' : Client}

theorem InOrder.keep (h : InOrder cl) (hout : cl'.hist.out = cl.hist.out)
    (hseq : cl.hist.seq ≤ cl'.hist.seq) : InOrder cl' := by
  constructor
  · rw [hout]
    exact h.pairwise
  · intro x hx
    rw [hout] at hx
    exact Nat.le_trans (h.le x hx) hseq

theorem InOrder.say {y : Chunk} (h : InOrder cl) (hout : cl'.hist.out = cl.hist.out ++ [y])
    (hseq : cl'.hist.seq = cl.hist.seq) (hy : y.no ≤ cl.hist.seq)
    (hbefore : ∀ x ∈ cl.hist.out, x.Before y ∨ x.Overtakes y) : InOrder cl' := by
  constructor
  · rw [hout, List.pairwise_append]
    refine ⟨h.pairwise, List.pairwise_singleton _ _, ?_⟩
    intro x hx z hz
    rw [List.mem_singleton.mp hz]
    exact hbefore x hx
  · intro x hx
    rw [hout] at hx
    rw [hseq]
    rcases List.mem_append.mp hx with hold | hnew
    · exact h.le x hold
    · rw [List.mem_singleton.mp hnew]
      exact hy

/-- The request coroutine speaks about the last request that has begun. -/
theorem InOrder.sayReq {y : Chunk} {a : Ans} (h : InOrder cl)
    (hout : cl'.hist.out = cl.hist.out ++ [y]) (hseq : cl'.hist.seq = cl.hist.seq)
    (hno : y.no = cl.hist.seq) (hsrc : y.src = .req a) : InOrder cl' := by
  refine h.say hout hseq (Nat.le_of_eq hno) fun x hx => .inl ?_
  constructor
  · rw [hno]
    exact h.le x hx
  · intro _ n b m c _ hy
    rw [hsrc] at hy
    exact absurd hy (by simp)

/-- The response coroutine speaks about the head of the list. -/
theorem InOrder.sayRsp {y : Chunk} {e : Entry} {a : Ans} (h : InOrder cl) (hlabel : Labelled cl)
    (hout : cl'.hist.out = cl.hist.out ++ [y]) (hseq : cl'.hist.seq = cl.hist.seq)
    (hhead : cl.hist.appended[cl.hist.npop]? = some e) (hno : y.no = e.no)
    (hsrc : y.src = .rsp cl.hist.call a) : InOrder cl' := by
  obtain ⟨hlt, rfl⟩ := List.getElem?_eq_some_iff.mp hhead
  have hmem : cl.hist.appended[cl.hist.npop] ∈ cl.hist.appended := List.getElem_mem hlt
  refine h.say hout hseq (hno ▸ hlabel.le _ hmem) fun x hx => ?_
  cases hx' : x.src with
  | req b => exact .inr ⟨b, _, a, hx', hsrc⟩
  | rsp n b =>
      left
      -- the call that wrote `x` is over, or it is this one
      have hof : x.isOf x.no n = true := by simp [Chunk.isOf, hx']
      obtain ⟨i, e', hi, hno', hbegun⟩ := hlabel.begun x hx _ _ hof
      obtain ⟨hlt', rfl⟩ := List.getElem?_eq_some_iff.mp hi
      rcases hbegun with hpopped | ⟨hhead', hlast⟩
      · have hless := List.pairwise_iff_getElem.mp hlabel.sorted _ _ hlt' hlt hpopped
        constructor
        · rw [hno]
          omega
        · intro heq
          rw [hno] at heq
          omega
      · subst hhead'
        constructor
        · rw [hno, hno']
        · intro _ n' b' m c hn hm
          rw [hx', Src.rsp.injEq] at hn
          rw [hsrc, Src.rsp.injEq] at hm
          omega

/-- A chunk the request coroutine writes has the number of its request. -/
theorem IoCase.req_no {srv : ConnIx} {α : Type} {p p' : Io α} (h : IoCase l .req srv p l' p') :
    l'.cl.hist.seq = l.cl.hist.seq ∧ (l'.cl.hist.out = l.cl.hist.out ∨
      ∃ y a, l'.cl.hist.out = l.cl.hist.out ++ [y] ∧ y.no = l.cl.hist.seq ∧ y.src = .req a) := by
  refine ⟨h.said_req.1, ?_⟩
  cases h with
  | unroll body s k => exact .inl rfl
  | stuck o k f => exact .inl rfl
  | yield r d k hfreed => exact .inl rfl
  | act hfreed hact =>
      cases hact with
      | sys r q res hok =>
          cases q with
          | recv len => cases res <;> exact .inl rfl
          | send data =>
              cases res with
              | ok bs =>
                  cases r with
                  | client => exact .inr ⟨_, _, rfl, rfl, rfl⟩
                  | server =>
                      left
                      show (l.cl.logForward bs).out = l.cl.hist.out
                      unfold Client.logForward
                      dsimp only
                      split <;> rfl
              | _ => exact .inl rfl
      | close r => simp
      | _ => exact .inl rfl

theorem inOrder_reqStep (hin : InRange l.cl) (h : InOrder l.cl) (hs : ReqCase l l') :
    InOrder l'.cl := by
  rcases hs.io_or_quiet hin with ⟨α, k, p, p', l₁, hreq, hio, rfl⟩ | hquiet
  · obtain ⟨hseq, hout⟩ := hio.req_no
    rcases hout with heq | ⟨y, a, heq, hno, hsrc⟩
    · exact h.keep heq (Nat.le_of_eq hseq.symm)
    · exact h.sayReq heq hseq hno hsrc
  · refine h.keep hquiet.out ?_
    cases hs.number with
    | same _ hseq _ => exact Nat.le_of_eq hseq.symm
    | begin _ hseq => omega
    | push _ _ _ _ hseq => exact Nat.le_of_eq hseq.symm

theorem inOrder_rspStep (hfifo : Fifo l.cl) (hlabel : Labelled l.cl) (h : InOrder l.cl)
    (hs : RspCase l l') : InOrder l'.cl := by
  cases hs with
  | @io n e p p' l₁ hdead hrsp hio =>
      obtain ⟨hseq, -, hout⟩ := hio.said_rsp
      rcases hout with heq | ⟨bs, heq⟩
      · exact h.keep heq (Nat.le_of_eq hseq.symm)
      · refine h.sayRsp hlabel heq hseq (hfifo.served_appended hrsp (live_of_cxtDead hdead)) ?_ rfl
        show l.cl.rspNo = e.no
        rw [Client.rspNo, hrsp]
  | evict hdead hrsp hcnt hstat hfind =>
      refine h.keep ?_ ?_ <;> simp [Local.rspPop]
  | pop hdead hrsp hcnt hstat =>
      refine h.keep ?_ ?_ <;> simp [Local.rspPop]
  | exit hdead hrsp =>
      have hexit : l.rspExit.cl.hist = l.cl.hist := by
        unfold Local.rspExit
        dsimp only
        split <;> simp [Local.leave]
      exact h.keep (by rw [hexit]) (by rw [hexit])
  | _ => exact h.keep rfl (Nat.le_refl _)

theorem inOrder_resume (h : InOrder cl) (side : Side) (ret : Int) :
    InOrder (cl.resume side ret) := by
  cases side with
  | req =>
      show InOrder (cl.resumeReq ret)
      unfold Client.resumeReq
      dsimp only
      split <;> exact h.keep rfl (Nat.le_refl _)
  | rsp =>
      show InOrder (cl.resumeRsp ret)
      unfold Client.resumeRsp
      dsimp only
      split <;> exact h.keep rfl (Nat.le_refl _)

end

theorem inOrder_invariant : ClientInvariant (fun _ _ _ => true)
    (fun cl => Fifo cl ∧ InRange cl ∧ Labelled cl) InOrder where
  new := fun _ _ _ _ => ⟨.nil, fun _ hx => absurd hx List.not_mem_nil⟩
  req := fun _ _ _ _ _ hJ h hs => inOrder_reqStep hJ.2.1 h hs
  rsp := fun _ _ _ _ _ hJ h hs => inOrder_rspStep hJ.1 hJ.2.2 h hs
  resume := fun _ side ret _ _ h => inOrder_resume h side ret
  err := fun _ _ _ _ h => ⟨h.pairwise, h.le⟩

/-- In every reachable state, of any two chunks a client has received the later one answers no
    earlier request, and of the same request no earlier call of the response handler, unless the
    first is an answer of the request coroutine itself and the second belongs to a response that
    was still queued. -/
theorem answers_in_order {w : World} (h : w.Reachable) {c : ClientId} {cl : Client}
    (hcl : w.clients c = some cl) :
    cl.hist.out.Pairwise (fun x y => x.Before y ∨ x.Overtakes y) ∧
      ∀ x ∈ cl.hist.out, ∀ n a, x.src = .rsp n a → cl.Begun x.no n := by
  have horder : InOrder cl :=
    World.client_invariant inOrder_invariant (fun w ch _ => World.coOk_true w ch)
      (fun _ hr _ _ hcl => ⟨World.fifo hr hcl, World.inRange hr hcl, World.labelled hr hcl⟩) h hcl
  refine ⟨horder.pairwise, fun x hx n a hsrc => ?_⟩
  exact (World.labelled h hcl).begun x hx _ _ (by simp [Chunk.isOf, hsrc])

/-- The server of a request refuses the connection while the response to the request before is
    still awaited: the client gets both answers, the second first. -/
theorem answers_in_order_refused : ∃ (w : World) (cl : Client) (x y : Chunk),
    w.Reachable ∧ w.clients 0 = some cl ∧ cl.hist.out = [x, y] ∧ x.Overtakes y ∧ y.no < x.no := by
  have hd : (World.driveInit (fun _ _ => true) 355
      (oneRequest ++ refusedRequest ++ oneResponse.tail)).any (fun w => (w.clients 0).any fun cl =>
        decide (cl.hist.out.map Chunk.no = [2, 1])) = true := by
    decide +kernel
  obtain ⟨w, hw, hp⟩ := World.reachable_of_drive hd
  obtain ⟨cl, hcl, hp⟩ := (Option.any_eq_true _ _).mp hp
  have hnos : cl.hist.out.map Chunk.no = [2, 1] := of_decide_eq_true hp
  obtain ⟨x, xs, hout, hx, hxs⟩ := List.map_eq_cons_iff.mp hnos
  obtain ⟨y, ys, rfl, hy, hys⟩ := List.map_eq_cons_iff.mp hxs
  obtain rfl := List.map_eq_nil_iff.mp hys
  have hpair := (answers_in_order hw hcl).1
  rw [hout] at hpair
  rcases List.rel_of_pairwise_cons hpair (List.mem_singleton_self y) with hbefore | hover
  · have hle := hbefore.no
    omega
  · exact ⟨w, cl, x, y, hw, hcl, hout, hover, by omega⟩

end HttpProxy
