/-
  HttpProxy.Queue.Fifo

  The request list of a client is the FIFO of what was appended and not yet
  popped: `Fifo` holds in every reachable state (`World.fifo_reachable`).

  `ReqList` and `RspList` say what a step of either coroutine does to the list;
  later modules read that off instead of going through the steps again.
-/

import HttpProxy.System.Invariant

namespace HttpProxy

open Lib

/-- The entries of the request list, from the head on. -/
def Client.queued (cl : Client) : List Entry := cl.cxt.list.cells.map (·.2)

-- ============================================================================
-- What a step does to the list
-- ============================================================================

/-- The list of `cl'` and the record of it are those of `cl`. -/
structure SameList (cl cl' : Client) : Prop where
  list : cl'.cxt.list = cl.cxt.list
  appended : cl'.hist.appended = cl.hist.appended
  npop : cl'.hist.npop = cl.hist.npop

/-- `e` is appended. -/
structure Pushed (cl cl' : Client) (e : Entry) : Prop where
  list : cl'.cxt.list = cl.cxt.list.push e
  appended : cl'.hist.appended = cl.hist.appended ++ [e]
  npop : cl'.hist.npop = cl.hist.npop

/-- What a step of the request coroutine does to the list. -/
inductive ReqList (l l' : Local) : Prop where
  | same : SameList l.cl l'.cl → l'.cl.req.pos ≠ .finished → ReqList l l'
  | push {j : ReqIx} {s : ConnIx} : l.cl.req.pos ≠ .finished →
      Pushed l.cl l'.cl { server := s, req := j, no := l.cl.hist.seq } →
      l'.cl.req.pos ≠ .finished → ReqList l l'
  | clear : l'.cl.cxt.list = .empty → l'.cl.hist.appended = l.cl.hist.appended →
      l'.cl.hist.npop = l.cl.hist.appended.length → l'.cl.req = .finished → ReqList l l'

/-- What a step of the response coroutine does to the list. -/
inductive RspList (l l' : Local) : Prop where
  | same : SameList l.cl l'.cl → (∀ h e p', l'.cl.rsp = .serve h e p' →
      (∃ p, l.cl.rsp = .serve h e p) ∨
        ∃ n, l.cl.cxt.list.head = some h ∧ l.cl.cxt.list.nodes h = some n ∧ n.val = e) →
      RspList l l'
  | pop {h : Nat} {e : Entry} {ret : Int} : l.cxtDead = false → l.cl.rsp = .serve h e (.ret ret) →
      l'.cl.cxt.list = l.cl.cxt.list.pop h → l'.cl.hist.appended = l.cl.hist.appended →
      l'.cl.hist.npop = l.cl.hist.npop + 1 → l'.cl.rsp = .loop → RspList l l'

section

variable {l l' : Local}

theorem SameList.refl (cl : Client) : SameList cl cl := ⟨rfl, rfl, rfl⟩

theorem SameList.trans {cl₁ cl₂ cl₃ : Client} (h₁ : SameList cl₁ cl₂) (h₂ : SameList cl₂ cl₃) :
    SameList cl₁ cl₃ :=
  ⟨h₂.list.trans h₁.list, h₂.appended.trans h₁.appended, h₂.npop.trans h₁.npop⟩

/-- What keeps the context and the record keeps the list. -/
theorem Local.Frame.sameList (h : l.Frame l') : SameList l.cl l'.cl := by
  obtain ⟨-, hcxt, -, -, -, -, hhist, -⟩ := h
  exact ⟨by rw [hcxt], by rw [hhist], by rw [hhist]⟩

theorem IoCase.sameList {side : Side} {srv : ConnIx} {α : Type} {p p' : Io α}
    (h : IoCase l side srv p l' p') :
    SameList l.cl l'.cl ∧ l'.cl.req = l.cl.req ∧ l'.cl.rsp = l.cl.rsp := by
  cases h with
  | unroll body s k => exact ⟨.refl _, rfl, rfl⟩
  | stuck o k f => exact ⟨.refl _, rfl, rfl⟩
  | yield r d k hfreed => cases side <;> exact ⟨⟨rfl, rfl, rfl⟩, rfl, rfl⟩
  | act hfreed hact =>
      cases hact with
      | sys r q res hok =>
          cases q with
          | recv len => cases res <;> exact ⟨⟨rfl, rfl, rfl⟩, rfl, rfl⟩
          | send data =>
              cases res with
              | ok bs =>
                  refine ⟨?_, rfl, rfl⟩
                  cases side <;> cases r
                  · exact ⟨rfl, rfl, rfl⟩
                  · show SameList l.cl { l.cl with hist := l.cl.logForward bs }
                    unfold Client.logForward
                    dsimp only
                    split <;> exact ⟨rfl, rfl, rfl⟩
                  · exact ⟨rfl, rfl, rfl⟩
                  · exact ⟨rfl, rfl, rfl⟩
              | _ => exact ⟨⟨rfl, rfl, rfl⟩, rfl, rfl⟩
      | close r => exact ⟨(l.connClose_frame _).sameList, by simp, by simp⟩
      | mark a => cases side <;> exact ⟨⟨rfl, rfl, rfl⟩, rfl, rfl⟩
      | _ => exact ⟨⟨rfl, rfl, rfl⟩, rfl, rfl⟩

/-- An operation leaves the context as it is. -/
theorem IoCase.cxt_eq {side : Side} {srv : ConnIx} {α : Type} {p p' : Io α}
    (h : IoCase l side srv p l' p') : l'.cl.cxt = l.cl.cxt := by
  cases h with
  | unroll body s k => rfl
  | stuck o k f => rfl
  | yield r d k hfreed => cases side <;> rfl
  | act hfreed hact =>
      cases hact with
      | sys r q res hok => cases q <;> cases res <;> rfl
      | close r => simp
      | _ => rfl

theorem gotServer_list (l : Local) (j : ReqIx) (s : ConnIx) :
    (SameList l.cl (l.gotServer j s).cl ∨
      Pushed l.cl (l.gotServer j s).cl { server := s, req := j, no := l.cl.hist.seq }) ∧
    (l.gotServer j s).cl.req.pos ≠ .finished := by
  have hgot := l.gotServer_cases j s
  generalize l.gotServer j s = l' at hgot ⊢
  cases hgot with
  | http hkind => exact ⟨.inl ⟨rfl, rfl, rfl⟩, by simp [ReqPc.pos]⟩
  | connect hkind => exact ⟨.inr ⟨by simp, by simp, by simp⟩, by simp [ReqPc.pos]⟩

/-- A connection is found, or made, in a state that differs from `l` in more than the list. -/
theorem ReqList.got {l₀ : Local} (hsame : SameList l.cl l₀.cl)
    (hseq : l₀.cl.hist.seq = l.cl.hist.seq)
    (hreq : l.cl.req.pos ≠ .finished) (j : ReqIx) (s : ConnIx) : ReqList l (l₀.gotServer j s) := by
  obtain ⟨hlist, hpos⟩ := gotServer_list l₀ j s
  rcases hlist with hsame' | ⟨hlist, happended, hnpop⟩
  · exact .same (hsame.trans hsame') hpos
  · rw [hseq] at hlist happended
    rw [hsame.list] at hlist
    rw [hsame.appended] at happended
    rw [hsame.npop] at hnpop
    exact .push hreq ⟨hlist, happended, hnpop⟩ hpos

theorem gotNewConn_list (hreq : l.cl.req.pos ≠ .finished) {l₀ : Local}
    (hsame : SameList l.cl l₀.cl) (hseq : l₀.cl.hist.seq = l.cl.hist.seq) (j : ReqIx) (i : ConnIx) :
    ReqList l (l₀.gotNewConn j i) := by
  rw [Local.gotNewConn_eq]
  apply ReqList.got
  · exact hsame.trans ⟨by simp [Cxt.poolAdd], by simp, by simp⟩
  · simpa using hseq
  · exact hreq

/-- A coroutine that makes a step has not returned. -/
theorem ReqCase.live (h : ReqCase l l') : l.cl.req.pos ≠ .finished := by
  have hpos {pc : ReqPc} (hreq : l.cl.req = pc) (hpc : pc.pos ≠ .finished) :
      l.cl.req.pos ≠ .finished := hreq ▸ hpc
  cases h
  all_goals exact hpos ‹_› (by simp [ReqPc.pos])

/-- It leaves the other one where it is. -/
theorem ReqCase.rsp_eq (h : ReqCase l l') : l'.cl.rsp = l.cl.rsp := by
  have hgot (l₀ : Local) (j : ReqIx) (s : ConnIx) : (l₀.gotServer j s).cl.rsp = l₀.cl.rsp := by
    have hgot := l₀.gotServer_cases j s
    generalize l₀.gotServer j s = l₁ at hgot ⊢
    cases hgot <;> simp
  cases h with
  | io hreq hio => exact hio.sameList.2.2
  | reuse hreq hfind hstat => rw [hgot, (l.increfConn_frame _).2.2.2.2.1]
  | newConn hreq hfd => rw [Local.gotNewConn_eq, hgot]; simp
  | connected hreq hret => rw [Local.gotNewConn_eq, hgot]; simp
  | cleanup hreq => simp [Local.reqCleanup, Local.leave]
  | done hreq =>
      unfold Local.reqDone
      dsimp only
      split <;> simp [Local.setReqBlocked]
  | _ => simp

theorem ReqCase.reqList (h : ReqCase l l') : ReqList l l' := by
  have hpos {pc : ReqPc} (hreq : l.cl.req = pc) (hpc : pc.pos ≠ .finished) :
      l.cl.req.pos ≠ .finished := hreq ▸ hpc
  cases h with
  | io hreq hio =>
      obtain ⟨hlist, happended, hnpop⟩ := hio.sameList.1
      exact .same ⟨hlist, happended, hnpop⟩ (by simp [ReqPc.pos])
  | forwarded hreq =>
      rename_i j s head
      refine .push (hpos hreq (by simp [ReqPc.pos])) (j := j) (s := s) ?_ (by simp [ReqPc.pos])
      exact ⟨by simp, by simp, by simp⟩
  | reuse hreq hfind hstat =>
      exact .got (l.increfConn_frame _).sameList (by simp) (hpos hreq (by simp [ReqPc.pos])) _ _
  | newConn hreq hfd =>
      exact gotNewConn_list (hpos hreq (by simp [ReqPc.pos])) (l.newConn_frame _ _ _).sameList
        (by simp) _ _
  | connected hreq hret =>
      exact gotNewConn_list (hpos hreq (by simp [ReqPc.pos])) (.refl _) rfl _ _
  | cleanup hreq =>
      refine .clear ?_ ?_ ?_ ?_ <;> simp [Local.reqCleanup, Local.leave]
  | done hreq =>
      unfold Local.reqDone
      dsimp only
      split
      · exact .same ⟨by simp, by simp, by simp⟩ (by simp [ReqPc.pos])
      · exact .same ⟨rfl, rfl, rfl⟩ (by simp [ReqPc.pos, Local.setReqBlocked])
  | resolved hreq =>
      rename_i j eid res
      obtain ⟨rps, hreq'⟩ := (l.dnsResolved_frame j eid res).2.2
      exact .same ⟨by simp, by simp, by simp⟩ (by simp [hreq', ReqPc.pos])
  | evict hreq hmain hfamily hfind hstat =>
      exact .same ⟨by simp [Cxt.poolDel], by simp, by simp⟩ (by simp [ReqPc.pos])
  | noLookup hreq => exact .same ⟨rfl, rfl, rfl⟩ (hpos hreq (by simp [ReqPc.pos]))
  | _ => exact .same ⟨by simp, by simp, by simp⟩ (by simp [ReqPc.pos])

/-- The context is there as long as the request coroutine has not returned. -/
theorem live_of_cxtDead (h : l.cxtDead = false) : l.cl.req.pos ≠ .finished := by
  intro hpos
  unfold Local.cxtDead at h
  cases hreq : l.cl.req with
  | finished => simp [hreq] at h
  | _ => simp [hreq, ReqPc.pos] at hpos

theorem rspPop_list (hdead : l.cxtDead = false) {h : Nat} {e : Entry} {ret : Int}
    (hrsp : l.cl.rsp = .serve h e (.ret ret)) {l₀ : Local} (hsame : SameList l.cl l₀.cl) :
    RspList l (l₀.rspPop h e) := by
  refine .pop hdead hrsp ?_ ?_ ?_ ?_
  · simp [Local.rspPop, hsame.list]
  · simp [Local.rspPop, hsame.appended]
  · simp [Local.rspPop, hsame.npop]
  · simp [Local.rspPop]

/-- The response coroutine leaves the other one where it is. -/
theorem RspCase.req_eq (h : RspCase l l') : l'.cl.req = l.cl.req := by
  cases h with
  | io hdead hrsp hio => exact hio.sameList.2.1
  | evict hdead hrsp hcnt hstat hfind => simp [Local.rspPop]
  | pop hdead hrsp hcnt hstat => simp [Local.rspPop]
  | exit hdead hrsp =>
      unfold Local.rspExit
      dsimp only
      split <;> simp [Local.leave]
  | sleep hdead hrsp hhead => simp [Local.setRspBlocked]
  | _ => simp

theorem RspCase.rspList (h : RspCase l l') : RspList l l' := by
  have hkeep (hrsp : l'.cl.rsp = l.cl.rsp) : ∀ h e p', l'.cl.rsp = .serve h e p' →
      (∃ p, l.cl.rsp = .serve h e p) ∨
        ∃ n, l.cl.cxt.list.head = some h ∧ l.cl.cxt.list.nodes h = some n ∧ n.val = e :=
    fun h e p' hp' => .inl ⟨p', hrsp ▸ hp'⟩
  cases h with
  | stuck f => exact .same ⟨rfl, rfl, rfl⟩ (hkeep rfl)
  | serve hdead hrsp hhead hn hcnt hkind =>
      refine .same ⟨rfl, rfl, rfl⟩ ?_
      intro h' e' p' hp'
      rw [Local.setRspPc_rsp, RspPc.serve.injEq] at hp'
      obtain ⟨rfl, rfl, -⟩ := hp'
      exact .inr ⟨_, hhead, hn, rfl⟩
  | io hdead hrsp hio =>
      obtain ⟨⟨hlist, happended, hnpop⟩, -, -⟩ := hio.sameList
      refine .same ⟨hlist, happended, hnpop⟩ ?_
      intro h' e' p' hp'
      rw [Local.setRspPc_rsp, RspPc.serve.injEq] at hp'
      obtain ⟨rfl, rfl, -⟩ := hp'
      exact .inl ⟨_, hrsp⟩
  | evict hdead hrsp hcnt hstat hfind =>
      exact rspPop_list hdead hrsp ⟨by simp [Cxt.poolDel], by simp, by simp⟩
  | pop hdead hrsp hcnt hstat => exact rspPop_list hdead hrsp (.refl _)
  | again hdead hrsp hstat => exact .same ⟨rfl, rfl, rfl⟩ (by simp)
  | leave hdead hrsp => exact .same ⟨rfl, rfl, rfl⟩ (by simp)
  | sleep hdead hrsp hhead => exact .same ⟨rfl, rfl, rfl⟩ (by simp)
  | exit hdead hrsp =>
      refine .same ⟨?_, ?_, ?_⟩ ?_
      all_goals
        unfold Local.rspExit
        dsimp only
        split <;> simp [Local.leave]

end

-- ============================================================================
-- The invariant
-- ============================================================================

/-- The list holds what was appended and not yet popped, in this order; the entry that is served
    is its head. -/
structure Fifo (cl : Client) : Prop where
  repr : cl.cxt.list.Repr cl.cxt.list.cells
  le : cl.hist.npop ≤ cl.hist.appended.length
  queued : cl.queued = cl.hist.appended.drop cl.hist.npop
  served : ∀ h e p, cl.rsp = .serve h e p → cl.req.pos ≠ .finished →
    cl.cxt.list.cells.head? = some (h, e)

section

variable {l l' : Local} {cl cl' : Client}

theorem Fifo.of_same (h : Fifo cl) (hsame : SameList cl cl')
    (hserved : ∀ n e p, cl'.rsp = .serve n e p → cl'.req.pos ≠ .finished →
      cl.cxt.list.cells.head? = some (n, e)) : Fifo cl' := by
  obtain ⟨hlist, happended, hnpop⟩ := hsame
  constructor
  · rw [hlist]
    exact h.repr
  · rw [happended, hnpop]
    exact h.le
  · rw [Client.queued, hlist, happended, hnpop]
    exact h.queued
  · rw [hlist]
    exact hserved

/-- A request is queued. -/
theorem queued_push (hfifo : Fifo cl) {e : Entry} (hlist : cl'.cxt.list = cl.cxt.list.push e) :
    cl'.queued = cl.queued ++ [e] := by
  rw [Client.queued, hlist, (hfifo.repr.cells_push e).1, List.map_append]
  rfl

/-- The head of the queue is the entry that is served. -/
theorem Fifo.queued_cons (h : Fifo cl) {n : Nat} {e : Entry} {p : Io Int}
    (hrsp : cl.rsp = .serve n e p) (hlive : cl.req.pos ≠ .finished) :
    ∃ cells, cl.cxt.list.cells = (n, e) :: cells ∧ cl.queued = e :: cells.map (·.2) := by
  obtain ⟨cells, hcells⟩ := List.head?_eq_some_iff.mp (h.served n e p hrsp hlive)
  refine ⟨cells, hcells, ?_⟩
  rw [Client.queued, hcells]
  rfl

theorem Fifo.served_mem (h : Fifo cl) {n : Nat} {e : Entry} {p : Io Int}
    (hrsp : cl.rsp = .serve n e p) (hlive : cl.req.pos ≠ .finished) : e ∈ cl.queued := by
  obtain ⟨cells, -, hqueued⟩ := h.queued_cons hrsp hlive
  rw [hqueued]
  exact List.mem_cons_self

/-- What the response coroutine pops is the head of the queue. -/
theorem Fifo.queued_pop (h : Fifo cl) {n : Nat} {e : Entry} {p : Io Int}
    (hrsp : cl.rsp = .serve n e p) (hlive : cl.req.pos ≠ .finished)
    (hlist : cl'.cxt.list = cl.cxt.list.pop n) : cl.queued = e :: cl'.queued := by
  obtain ⟨cells, hcells, hqueued⟩ := h.queued_cons hrsp hlive
  rw [hqueued, Client.queued, hlist, (h.repr.cells_pop hcells).1]

/-- The entry that is served is the first one not popped. -/
theorem Fifo.served_appended (h : Fifo cl) {n : Nat} {e : Entry} {p : Io Int}
    (hrsp : cl.rsp = .serve n e p) (hlive : cl.req.pos ≠ .finished) :
    cl.hist.appended[cl.hist.npop]? = some e := by
  obtain ⟨cells, -, hqueued⟩ := h.queued_cons hrsp hlive
  rw [h.queued] at hqueued
  rw [← List.head?_drop, hqueued]
  rfl

theorem fifo_reqStep (h : Fifo l.cl) (hs : ReqCase l l') : Fifo l'.cl := by
  have hserved {n : Nat} {e : Entry} {p : Io Int} (hrsp : l'.cl.rsp = .serve n e p) :
      l.cl.cxt.list.cells.head? = some (n, e) :=
    h.served n e p (hs.rsp_eq ▸ hrsp) hs.live
  cases hs.reqList with
  | same hsame hpos => exact h.of_same hsame fun n e p hrsp _ => hserved hrsp
  | push hpos hpush hpos' =>
      obtain ⟨hlist, happended, hnpop⟩ := hpush
      obtain ⟨hcells, hrepr⟩ := h.repr.cells_push _
      rw [← hlist] at hcells hrepr
      constructor
      · exact hrepr
      · rw [happended, hnpop, List.length_append]
        exact Nat.le_add_right_of_le h.le
      · have hqueued : l.cl.cxt.list.cells.map (·.2) = _ := h.queued
        rw [Client.queued, hcells, happended, hnpop, List.map_append, hqueued,
          List.drop_append_of_le_length h.le]
        rfl
      · intro n e p hrsp _
        rw [hcells, List.head?_append, hserved hrsp]
        rfl
  | clear hlist happended hnpop hreq =>
      constructor
      · rw [hlist, LinkedQueue.cells_empty]
        exact LinkedQueue.repr_empty
      · exact Nat.le_of_eq (hnpop.trans (congrArg List.length happended).symm)
      · rw [Client.queued, hlist, LinkedQueue.cells_empty, happended, hnpop, List.drop_length]
        rfl
      · intro n e p _ hpos
        rw [hreq] at hpos
        exact absurd rfl hpos

theorem fifo_rspStep (h : Fifo l.cl) (hs : RspCase l l') : Fifo l'.cl := by
  cases hs.rspList with
  | same hsame hserve =>
      refine h.of_same hsame fun n e p hrsp hpos => ?_
      rw [hs.req_eq] at hpos
      rcases hserve n e p hrsp with ⟨p₀, hp₀⟩ | ⟨node, hhead, hnode, rfl⟩
      · exact h.served n e p₀ hp₀ hpos
      · exact h.repr.cells_head hhead hnode
  | @pop n e ret hdead hrsp hlist happended hnpop hloop =>
      obtain ⟨cells, hcells⟩ := List.head?_eq_some_iff.mp
        (h.served n e _ hrsp (live_of_cxtDead hdead))
      have hdrop : l.cl.hist.appended.drop l.cl.hist.npop = e :: cells.map (·.2) := by
        rw [← h.queued, Client.queued, hcells]
        rfl
      obtain ⟨hcells', hrepr⟩ := h.repr.cells_pop hcells
      rw [← hlist] at hcells' hrepr
      constructor
      · exact hrepr
      · have hlen := congrArg List.length hdrop
        simp only [List.length_drop, List.length_cons] at hlen
        rw [happended, hnpop]
        omega
      · rw [Client.queued, hcells', happended, hnpop, ← List.tail_drop, hdrop]
        rfl
      · intro n' e' p hrsp' _
        rw [hloop] at hrsp'
        exact absurd hrsp' (by simp)

/-- A response coroutine that is resumed serves what it has served. -/
theorem resume_serve {side : Side} {ret : Int} {n : Nat} {e : Entry} {p : Io Int}
    (h : (cl.resume side ret).rsp = .serve n e p) : ∃ p₀, cl.rsp = .serve n e p₀ := by
  cases side with
  | req =>
      have hrsp : (cl.resumeReq ret).rsp = cl.rsp := by
        unfold Client.resumeReq
        dsimp only
        split <;> rfl
      exact ⟨p, hrsp ▸ h⟩
  | rsp =>
      have hrsp : (cl.resumeRsp ret).rsp = .serve n e p := h
      unfold Client.resumeRsp at hrsp
      dsimp only at hrsp
      split at hrsp
      · exact absurd hrsp (by simp)
      · dsimp only at hrsp
        split at hrsp <;> exact absurd hrsp (by simp)
      · rename_i hserve
        rw [RspPc.serve.injEq] at hrsp
        obtain ⟨rfl, rfl, -⟩ := hrsp
        exact ⟨_, hserve⟩
      · exact ⟨p, hrsp⟩

theorem resume_live {side : Side} {ret : Int} (h : cl.req.pos = .finished) :
    (cl.resume side ret).req.pos = .finished := by
  cases side with
  | req =>
      show (cl.resumeReq ret).req.pos = .finished
      unfold Client.resumeReq
      cases hreq : cl.req with
      | finished => rfl
      | _ => simp [hreq, ReqPc.pos] at h
  | rsp =>
      show (cl.resumeRsp ret).req.pos = .finished
      unfold Client.resumeRsp
      dsimp only
      split <;> exact h

theorem fifo_resume (h : Fifo cl) (side : Side) (ret : Int) : Fifo (cl.resume side ret) := by
  have hsame : SameList cl (cl.resume side ret) := by
    cases side with
    | req =>
        show SameList cl (cl.resumeReq ret)
        unfold Client.resumeReq
        dsimp only
        split <;> exact ⟨rfl, rfl, rfl⟩
    | rsp =>
        show SameList cl (cl.resumeRsp ret)
        unfold Client.resumeRsp
        dsimp only
        split <;> exact ⟨rfl, rfl, rfl⟩
  refine h.of_same hsame fun n e p hrsp hpos => ?_
  obtain ⟨p₀, hp₀⟩ := resume_serve hrsp
  exact h.served n e p₀ hp₀ fun hfin => hpos (resume_live hfin)

end

/-- A new client has nothing queued. -/
theorem queued_new (sh : Shared) (conn : Conn) : (World.newClient sh conn).queued = [] := by
  show LinkedQueue.empty.cells.map (·.2) = ([] : List Entry)
  rw [LinkedQueue.cells_empty]
  rfl

theorem fifo_new (sh : Shared) (conn : Conn) : Fifo (World.newClient sh conn) where
  repr := by
    show LinkedQueue.empty.Repr LinkedQueue.empty.cells
    rw [LinkedQueue.cells_empty]
    exact LinkedQueue.repr_empty
  le := Nat.le_refl 0
  queued := queued_new sh conn
  served := fun _ _ _ hrsp => absurd hrsp (by simp [World.newClient])

theorem fifo_invariant : ClientInvariant (fun _ _ _ => true) (fun _ => True) Fifo where
  new := fun sh conn _ _ => fifo_new sh conn
  req := fun _ _ _ _ _ _ h hs => fifo_reqStep h hs
  rsp := fun _ _ _ _ _ _ h hs => fifo_rspStep h hs
  resume := fun _ side ret _ _ h => fifo_resume h side ret
  err := fun _ _ _ _ h => h.of_same ⟨rfl, rfl, rfl⟩ h.served

/-- The request list of every client is the FIFO it should be, in every run. -/
theorem World.fifo {ok : World → Choice → Prop} {w : World} (h : Run World.step ok World.init w)
    {c : ClientId} {cl : Client} (hcl : w.clients c = some cl) : Fifo cl :=
  client_invariant fifo_invariant (fun w ch _ => coOk_true w ch)
    (fun _ _ _ _ _ => trivial) h hcl

end HttpProxy
