/-
  HttpProxy.Queue.Labels

  Every chunk a client has received names the request it answers and, if a response
  handler wrote it, which call of the handler.  In every run these names identify the
  call (`World.labelled`): requests are appended in the order of their numbers
  (`Numbered`), so when the response coroutine calls a handler nothing carries its name
  yet (`relayed_serve`).

  `Client.relayed` is what the call that is going on has written.
-/

import HttpProxy.Queue.Quiet

namespace HttpProxy

open Lib

-- ============================================================================
-- Chunks
-- ============================================================================

/-- Written by call `call` of the response handler for request `no`. -/
def Chunk.isOf (x : Chunk) (no call : Nat) : Bool :=
  match x.src with
  | .req _ => false
  | .rsp n _ => x.no = no && n = call

/-- The bytes the client has accepted from call `call` of the handler for request `no`. -/
def History.relayed (h : History) (no call : Nat) : Nat :=
  ((h.out.filter (·.isOf no call)).flatMap (·.bytes)).length

/-- The bytes of the response that is being relayed. -/
def Client.relayed (cl : Client) : Nat := cl.hist.relayed cl.rspNo cl.hist.call

/-- A response handler is running. -/
def RspPc.serves : RspPc → Bool
  | .serve _ _ _ => true
  | _ => false

/-- The request being handled may still be appended. -/
def ReqPc.appends : ReqPc → Bool
  | .io .fetch _ => true
  | .io (.forward _ _ _) _ => true
  | .resolve _ => true
  | .dns _ _ => true
  | .resolved _ _ => true
  | .addrs _ _ => true
  | .getConn _ _ _ => true
  | .connect _ _ _ => true
  | .connected _ _ _ _ => true
  | _ => false

theorem ReqPc.appends_io {α : Type} (k : ReqK α) (p p' : Io α) :
    (ReqPc.io k p').appends = (ReqPc.io k p).appends := by
  cases k <;> rfl

-- ============================================================================
-- What a step writes and appends
-- ============================================================================

section

variable {l l' : Local} {cl : Client}

/-- What an operation of the request coroutine writes to the client is its own. -/
theorem IoCase.said_req {srv : ConnIx} {α : Type} {p p' : Io α} (h : IoCase l .req srv p l' p') :
    l'.cl.hist.seq = l.cl.hist.seq ∧ l'.cl.hist.call = l.cl.hist.call ∧
      (l'.cl.hist.out = l.cl.hist.out ∨
        ∃ x a, l'.cl.hist.out = l.cl.hist.out ++ [x] ∧ x.src = .req a) := by
  cases h with
  | unroll body s k => exact ⟨rfl, rfl, .inl rfl⟩
  | stuck o k f => exact ⟨rfl, rfl, .inl rfl⟩
  | yield r d k hfreed => exact ⟨rfl, rfl, .inl rfl⟩
  | act hfreed hact =>
      cases hact with
      | sys r q res hok =>
          cases q with
          | recv len => cases res <;> exact ⟨rfl, rfl, .inl rfl⟩
          | send data =>
              cases res with
              | ok bs =>
                  cases r with
                  | client => exact ⟨rfl, rfl, .inr ⟨_, _, rfl, rfl⟩⟩
                  | server =>
                      show (l.cl.logForward bs).seq = _ ∧ (l.cl.logForward bs).call = _ ∧
                        ((l.cl.logForward bs).out = _ ∨ _)
                      unfold Client.logForward
                      dsimp only
                      split <;> exact ⟨rfl, rfl, .inl rfl⟩
              | _ => exact ⟨rfl, rfl, .inl rfl⟩
      | close r => simp
      | _ => exact ⟨rfl, rfl, .inl rfl⟩

/-- What an operation of the response coroutine writes carries the name of the call. -/
theorem IoCase.said_rsp {srv : ConnIx} {α : Type} {p p' : Io α} (h : IoCase l .rsp srv p l' p') :
    l'.cl.hist.seq = l.cl.hist.seq ∧ l'.cl.hist.call = l.cl.hist.call ∧
      (l'.cl.hist.out = l.cl.hist.out ∨ ∃ bs, l'.cl.hist.out =
        l.cl.hist.out ++ [⟨l.cl.rspNo, .rsp l.cl.hist.call l.cl.hist.rspAns, bs⟩]) := by
  cases h with
  | unroll body s k => exact ⟨rfl, rfl, .inl rfl⟩
  | stuck o k f => exact ⟨rfl, rfl, .inl rfl⟩
  | yield r d k hfreed => exact ⟨rfl, rfl, .inl rfl⟩
  | act hfreed hact =>
      cases hact with
      | sys r q res hok =>
          cases q with
          | recv len => cases res <;> exact ⟨rfl, rfl, .inl rfl⟩
          | send data =>
              cases res with
              | ok bs =>
                  cases r with
                  | client => exact ⟨rfl, rfl, .inr ⟨_, rfl⟩⟩
                  | server => exact ⟨rfl, rfl, .inl rfl⟩
              | _ => exact ⟨rfl, rfl, .inl rfl⟩
      | close r => simp
      | _ => exact ⟨rfl, rfl, .inl rfl⟩

/-- What a step of the request coroutine does to the numbers of requests. -/
inductive ReqNumber (l l' : Local) : Prop where
  | same : l'.cl.hist.appended = l.cl.hist.appended → l'.cl.hist.seq = l.cl.hist.seq →
      (l'.cl.req.appends = true → l.cl.req.appends = true) → ReqNumber l l'
  | begin : l'.cl.hist.appended = l.cl.hist.appended → l'.cl.hist.seq = l.cl.hist.seq + 1 →
      ReqNumber l l'
  | push {e : Entry} : l.cl.req.appends = true → l'.cl.req.appends = false →
      l'.cl.hist.appended = l.cl.hist.appended ++ [e] → e.no = l.cl.hist.seq →
      l'.cl.hist.seq = l.cl.hist.seq → ReqNumber l l'

theorem gotServer_number {l₀ : Local} (happended : l₀.cl.hist.appended = l.cl.hist.appended)
    (hseq : l₀.cl.hist.seq = l.cl.hist.seq) (hreq : l.cl.req.appends = true) (j : ReqIx)
    (s : ConnIx) : ReqNumber l (l₀.gotServer j s) := by
  have hgot := l₀.gotServer_cases j s
  generalize l₀.gotServer j s = l₁ at hgot ⊢
  cases hgot with
  | http hkind => exact .same (by simpa using happended) (by simpa using hseq) fun _ => hreq
  | connect hkind =>
      refine .push (e := { server := s, req := j, no := l₀.cl.hist.seq }) hreq rfl ?_ hseq ?_
      · simp [happended]
      · simp [hseq]

theorem ReqCase.number (h : ReqCase l l') : ReqNumber l l' := by
  have hkeep {pc : ReqPc} (hreq : l.cl.req = pc) (hpc : pc.appends = true) :
      l.cl.req.appends = true := hreq ▸ hpc
  cases h with
  | @io α k p p' l₁ hreq hio =>
      refine .same hio.sameList.1.appended hio.said_req.1 fun happends => ?_
      rw [hreq, ReqPc.appends_io k p' p]
      exact happends
  | fetch hreq => exact .begin rfl rfl
  | @forwarded j s head hreq =>
      refine .push (e := { server := s, req := j, no := l.cl.hist.seq }) (hkeep hreq rfl) rfl
        ?_ rfl ?_
      · simp
      · simp
  | reuse hreq hfind hstat => exact gotServer_number (by simp) (by simp) (hkeep hreq rfl) _ _
  | newConn hreq hfd =>
      rw [Local.gotNewConn_eq]
      exact gotServer_number (by simp) (by simp) (hkeep hreq rfl) _ _
  | connected hreq hret =>
      rw [Local.gotNewConn_eq]
      exact gotServer_number (by simp) (by simp) (hkeep hreq rfl) _ _
  | cleanup hreq =>
      refine .same ?_ ?_ ?_ <;> simp [Local.reqCleanup, Local.leave, ReqPc.appends]
  | done hreq =>
      unfold Local.reqDone
      dsimp only
      split
      · exact .same (by simp) (by simp) (by simp [ReqPc.appends])
      · exact .same rfl rfl (by simp [ReqPc.appends, Local.setReqBlocked])
  | resolved hreq => exact .same (by simp) (by simp) fun _ => hkeep hreq rfl
  | dispatch hreq hkind hparse => exact .same (by simp) (by simp) fun _ => hkeep hreq rfl
  | notForwarded hreq hret => exact .same (by simp) (by simp) fun _ => hkeep hreq rfl
  | cached hreq => exact .same rfl rfl fun _ => hkeep hreq rfl
  | lookup hreq => exact .same rfl rfl fun _ => hkeep hreq rfl
  | otherFamily hreq => exact .same rfl rfl fun _ => hkeep hreq rfl
  | notPooled hreq hfind => exact .same rfl rfl fun _ => hkeep hreq rfl
  | evict hreq hmain hfamily hfind hstat => exact .same (by simp) (by simp) fun _ => hkeep hreq rfl
  | noConn hreq => exact .same rfl rfl fun _ => hkeep hreq rfl
  | connecting hreq hfd => exact .same (by simp) (by simp) fun _ => hkeep hreq rfl
  | notConnected hreq => exact .same (by simp) (by simp) fun _ => hkeep hreq rfl
  | _ => exact .same (by simp) (by simp) (by simp [ReqPc.appends])

end

-- ============================================================================
-- The invariant
-- ============================================================================

/-- Requests are appended in the order of their numbers. -/
structure Numbered (cl : Client) : Prop where
  sorted : cl.hist.appended.Pairwise fun e e' => e.no < e'.no
  le : ∀ e ∈ cl.hist.appended, e.no ≤ cl.hist.seq
  lt : cl.req.appends = true → ∀ e ∈ cl.hist.appended, e.no < cl.hist.seq

/-- Call `call` of the handler for request `no` has begun: the request has been popped, or it is
    the head and this is the call that is going on or an earlier one. -/
def Client.Begun (cl : Client) (no call : Nat) : Prop :=
  ∃ i e, cl.hist.appended[i]? = some e ∧ e.no = no ∧
    (i < cl.hist.npop ∨ i = cl.hist.npop ∧
      (call < cl.hist.call ∨ call = cl.hist.call ∧ cl.rsp.serves = true))

/-- What the client has received from a call was written after the call had begun. -/
structure Labelled (cl : Client) : Prop extends Numbered cl where
  begun : ∀ x ∈ cl.hist.out, ∀ no call, x.isOf no call = true → cl.Begun no call

section

variable {l l' : Local} {cl cl' : Client}

theorem numbered_reqStep (h : Numbered l.cl) (hs : ReqCase l l') : Numbered l'.cl := by
  cases hs.number with
  | same happended hseq happends =>
      refine ⟨?_, ?_, fun hpc => ?_⟩
      · rw [happended]
        exact h.sorted
      · rw [happended, hseq]
        exact h.le
      · rw [happended, hseq]
        exact h.lt (happends hpc)
  | begin happended hseq =>
      refine ⟨?_, ?_, fun _ => ?_⟩
      · rw [happended]
        exact h.sorted
      · rw [happended, hseq]
        exact fun e he => Nat.le_succ_of_le (h.le e he)
      · rw [happended, hseq]
        exact fun e he => Nat.lt_succ_of_le (h.le e he)
  | @push e hpc hpc' happended hno hseq =>
      refine ⟨?_, ?_, fun hp => absurd (hpc'.symm.trans hp) (by simp)⟩
      · rw [happended, List.pairwise_append]
        refine ⟨h.sorted, List.pairwise_singleton _ _, ?_⟩
        intro e₁ he₁ e₂ he₂
        rw [List.mem_singleton.mp he₂, hno]
        exact h.lt hpc e₁ he₁
      · rw [happended, hseq]
        intro e' he'
        rcases List.mem_append.mp he' with hold | hnew
        · exact h.le e' hold
        · rw [List.mem_singleton.mp hnew, hno]

theorem Numbered.of_same (h : Numbered cl) (happended : cl'.hist.appended = cl.hist.appended)
    (hseq : cl'.hist.seq = cl.hist.seq) (hreq : cl'.req.appends = cl.req.appends) :
    Numbered cl' := by
  refine ⟨?_, ?_, fun hpc => ?_⟩
  · rw [happended]
    exact h.sorted
  · rw [happended, hseq]
    exact h.le
  · rw [happended, hseq]
    exact h.lt (hreq ▸ hpc)

/-- A call that has begun stays so: the record of appended requests only grows, and the response
    coroutine pops the head, calls its handler again or goes on with the call. -/
theorem Client.Begun.move {no call : Nat} (h : cl.Begun no call) (es : List Entry)
    (happended : cl'.hist.appended = cl.hist.appended ++ es)
    (hgo : cl.hist.npop < cl'.hist.npop ∨ cl'.hist.npop = cl.hist.npop ∧
      (cl.hist.call < cl'.hist.call ∨
        cl'.hist.call = cl.hist.call ∧ (cl.rsp.serves = true → cl'.rsp.serves = true))) :
    cl'.Begun no call := by
  obtain ⟨i, e, hi, hno, hbegun⟩ := h
  have hlt : i < cl.hist.appended.length := (List.getElem?_eq_some_iff.mp hi).1
  refine ⟨i, e, ?_, hno, ?_⟩
  · rw [happended, List.getElem?_append_left hlt]
    exact hi
  · rcases hgo with hpop | ⟨hnpop, hcall⟩
    · omega
    · rw [hnpop]
      rcases hbegun with hpopped | ⟨hhead, hlast⟩
      · exact .inl hpopped
      · refine .inr ⟨hhead, ?_⟩
        rcases hlast with hold | ⟨hnow, hserves⟩
        · left
          omega
        · rcases hcall with hnext | ⟨hsame, hserves'⟩
          · left
            omega
          · exact .inr ⟨hnow.trans hsame.symm, hserves' hserves⟩

theorem labelled_reqStep (hfifo : Fifo l.cl) (hin : InRange l.cl) (h : Labelled l.cl)
    (hs : ReqCase l l') : Labelled l'.cl := by
  have hserves : l'.cl.rsp.serves = l.cl.rsp.serves := by rw [hs.rsp_eq]
  -- nothing is popped, or all is
  have hmove (hcall : l'.cl.hist.call = l.cl.hist.call) {no call : Nat}
      (hb : l.cl.Begun no call) : l'.cl.Begun no call := by
    have hcall' : l.cl.hist.call < l'.cl.hist.call ∨ l'.cl.hist.call = l.cl.hist.call ∧
        (l.cl.rsp.serves = true → l'.cl.rsp.serves = true) :=
      .inr ⟨hcall, fun hs => hserves.trans hs⟩
    cases hs.reqList with
    | same hsame hpos =>
        exact hb.move [] (by rw [hsame.appended, List.append_nil]) (.inr ⟨hsame.npop, hcall'⟩)
    | push hpos hpush hpos' => exact hb.move _ hpush.appended (.inr ⟨hpush.npop, hcall'⟩)
    | clear hlist happended hnpop hreq =>
        refine hb.move [] (by rw [happended, List.append_nil]) ?_
        rcases Nat.lt_or_eq_of_le hfifo.le with hlt | heq
        · exact .inl (by omega)
        · exact .inr ⟨by omega, hcall'⟩
  refine ⟨numbered_reqStep h.toNumbered hs, ?_⟩
  intro x hx no call hof
  rcases hs.io_or_quiet hin with ⟨α, k, p, p', l₁, hreq, hio, rfl⟩ | hquiet
  · obtain ⟨-, hcall, hout⟩ := hio.said_req
    refine hmove hcall (h.begun x ?_ no call hof)
    rcases hout with heq | ⟨y, a, heq, hsrc⟩
    · rw [← heq]
      exact hx
    · have hx' : x ∈ l.cl.hist.out ++ [y] := heq ▸ hx
      rcases List.mem_append.mp hx' with hold | hnew
      · exact hold
      · rw [List.mem_singleton.mp hnew, Chunk.isOf, hsrc] at hof
        exact absurd hof (by simp)
  · exact hmove hquiet.call (h.begun x (hquiet.out ▸ hx) no call hof)

theorem labelled_rspStep (hfifo : Fifo l.cl) (h : Labelled l.cl) (hs : RspCase l l') :
    Labelled l'.cl := by
  have happended : l'.cl.hist.appended = l.cl.hist.appended := by
    cases hs.rspList with
    | same hsame hserve => exact hsame.appended
    | pop hdead hrsp hlist happended hnpop hloop => exact happended
  have hquiet (hseq : l'.cl.hist.seq = l.cl.hist.seq) (hout : l'.cl.hist.out = l.cl.hist.out)
      (hgo : l.cl.hist.npop < l'.cl.hist.npop ∨ l'.cl.hist.npop = l.cl.hist.npop ∧
        (l.cl.hist.call < l'.cl.hist.call ∨ l'.cl.hist.call = l.cl.hist.call ∧
          (l.cl.rsp.serves = true → l'.cl.rsp.serves = true))) : Labelled l'.cl := by
    refine ⟨h.toNumbered.of_same happended hseq (by rw [hs.req_eq]), ?_⟩
    intro x hx no call hof
    exact (h.begun x (hout ▸ hx) no call hof).move [] (by rw [happended, List.append_nil]) hgo
  cases hs with
  | stuck f => exact hquiet rfl rfl (.inr ⟨rfl, .inr ⟨rfl, id⟩⟩)
  | leave hdead hrsp => exact hquiet rfl rfl (.inr ⟨rfl, .inr ⟨rfl, by simp [hrsp, RspPc.serves]⟩⟩)
  | sleep hdead hrsp hhead =>
      exact hquiet rfl rfl (.inr ⟨rfl, .inr ⟨rfl, by simp [hrsp, RspPc.serves]⟩⟩)
  | serve hdead hrsp hhead hn hcnt hkind =>
      exact hquiet rfl rfl (.inr ⟨rfl, .inr ⟨rfl, by simp [RspPc.serves]⟩⟩)
  | @io n e p p' l₁ hdead hrsp hio =>
      obtain ⟨hseq, hcall, hout⟩ := hio.said_rsp
      have hnpop : l₁.cl.hist.npop = l.cl.hist.npop := hio.sameList.1.npop
      refine ⟨h.toNumbered.of_same happended hseq ?_, ?_⟩
      · exact congrArg ReqPc.appends hio.sameList.2.1
      · intro x hx no call hof
        have hold (hx : x ∈ l.cl.hist.out) : (l₁.setRspPc (.serve n e p')).cl.Begun no call :=
          (h.begun x hx no call hof).move [] (by rw [happended, List.append_nil])
            (.inr ⟨hnpop, .inr ⟨hcall, by simp [RspPc.serves]⟩⟩)
        rcases hout with heq | ⟨bs, heq⟩
        · exact hold (heq ▸ hx)
        · have hx' :
              x ∈ l.cl.hist.out ++ [⟨l.cl.rspNo, .rsp l.cl.hist.call l.cl.hist.rspAns, bs⟩] :=
            heq ▸ hx
          rcases List.mem_append.mp hx' with hx | hnew
          · exact hold hx
          · -- the call that is going on is that for the head
            rw [List.mem_singleton.mp hnew] at hof
            simp only [Chunk.isOf, Bool.and_eq_true, decide_eq_true_eq] at hof
            obtain ⟨hno, hnow⟩ := hof
            rw [Client.rspNo, hrsp] at hno
            refine ⟨l.cl.hist.npop, e, ?_, hno, .inr ⟨hnpop.symm, .inr ⟨?_, rfl⟩⟩⟩
            · rw [happended]
              exact hfifo.served_appended hrsp (live_of_cxtDead hdead)
            · exact hnow.symm.trans hcall.symm
  | evict hdead hrsp hcnt hstat hfind =>
      refine hquiet ?_ ?_ (.inl ?_) <;> simp [Local.rspPop]
  | again hdead hrsp hstat => exact hquiet rfl rfl (.inr ⟨rfl, .inl (Nat.lt_succ_self _)⟩)
  | pop hdead hrsp hcnt hstat =>
      refine hquiet ?_ ?_ (.inl ?_) <;> simp [Local.rspPop]
  | exit hdead hrsp =>
      have hexit : l.rspExit.cl.hist = l.cl.hist := by
        unfold Local.rspExit
        dsimp only
        split <;> simp [Local.leave]
      refine hquiet (by rw [hexit]) (by rw [hexit]) (.inr ⟨by rw [hexit], .inr ⟨by rw [hexit], ?_⟩⟩)
      simp [hrsp, RspPc.serves]

theorem labelled_resume (h : Labelled cl) (side : Side) (ret : Int) :
    Labelled (cl.resume side ret) := by
  have hkeep (cl' : Client) (hhist : cl'.hist = cl.hist) (hreq : cl'.req.appends = cl.req.appends)
      (hrsp : cl.rsp.serves = true → cl'.rsp.serves = true) : Labelled cl' := by
    refine ⟨h.toNumbered.of_same (by rw [hhist]) (by rw [hhist]) hreq, ?_⟩
    intro x hx no call hof
    refine (h.begun x (hhist ▸ hx) no call hof).move [] ?_ (.inr ⟨by rw [hhist], .inr ?_⟩)
    · rw [hhist, List.append_nil]
    · exact ⟨by rw [hhist], hrsp⟩
  cases side with
  | req =>
      show Labelled (cl.resumeReq ret)
      unfold Client.resumeReq
      dsimp only
      split
      · exact hkeep _ rfl (by simp [*, ReqPc.appends]) id
      · rename_i α k p hreq
        refine hkeep _ rfl ?_ id
        rw [hreq]
        exact ReqPc.appends_io k p _
      · exact hkeep _ rfl (by simp [*, ReqPc.appends]) id
      · exact hkeep _ rfl (by simp [*, ReqPc.appends]) id
      · exact hkeep _ rfl (by simp [*, ReqPc.appends]) id
      · exact hkeep _ rfl rfl id
  | rsp =>
      show Labelled (cl.resumeRsp ret)
      unfold Client.resumeRsp
      dsimp only
      split
      · exact hkeep _ rfl rfl (by simp [*, RspPc.serves])
      · exact hkeep _ rfl rfl (by simp [*, RspPc.serves])
      · exact hkeep _ rfl rfl fun _ => rfl
      · exact hkeep _ rfl rfl id

theorem labelled_new (sh : Shared) (conn : Conn) : Labelled (World.newClient sh conn) where
  sorted := .nil
  le := fun _ he => absurd he List.not_mem_nil
  lt := fun _ _ he => absurd he List.not_mem_nil
  begun := fun _ hx => absurd hx List.not_mem_nil

/-- When the response coroutine calls a handler for the head, the client has received nothing of
    this call. -/
theorem Labelled.relayed_serve (h : Labelled cl) {e : Entry}
    (hhead : cl.hist.appended[cl.hist.npop]? = some e) (hrsp : cl.rsp.serves = false) :
    cl.hist.relayed e.no cl.hist.call = 0 := by
  have hnone : cl.hist.out.filter (·.isOf e.no cl.hist.call) = [] := by
    rw [List.filter_eq_nil_iff]
    intro x hx hof
    obtain ⟨i, e', hi, hno, hbegun⟩ := h.begun x hx _ _ hof
    rcases hbegun with hpopped | ⟨-, hlast⟩
    · obtain ⟨hlt, rfl⟩ := List.getElem?_eq_some_iff.mp hi
      obtain ⟨hlt', rfl⟩ := List.getElem?_eq_some_iff.mp hhead
      have hless := List.pairwise_iff_getElem.mp h.sorted i cl.hist.npop hlt hlt' hpopped
      omega
    · rcases hlast with hold | ⟨-, hserves⟩
      · omega
      · exact absurd (hrsp.symm.trans hserves) (by simp)
  rw [History.relayed, hnone]
  rfl

end

theorem labelled_invariant :
    ClientInvariant (fun _ _ _ => true) (fun cl => Fifo cl ∧ InRange cl) Labelled where
  new := fun sh conn _ _ => labelled_new sh conn
  req := fun _ _ _ _ _ hJ h hs => labelled_reqStep hJ.1 hJ.2 h hs
  rsp := fun _ _ _ _ _ hJ h hs => labelled_rspStep hJ.1 h hs
  resume := fun _ side ret _ _ h => labelled_resume h side ret
  err := fun _ _ _ _ h => ⟨⟨h.sorted, h.le, h.lt⟩, h.begun⟩

/-- The names of chunks identify the calls that wrote them, in every run. -/
theorem World.labelled {ok : World → Choice → Prop} {w : World} (h : Run World.step ok World.init w)
    {c : ClientId} {cl : Client} (hcl : w.clients c = some cl) : Labelled cl :=
  client_invariant labelled_invariant (fun w ch _ => coOk_true w ch)
    (fun _ hr _ _ hcl => ⟨fifo hr hcl, inRange hr hcl⟩) h hcl

end HttpProxy
