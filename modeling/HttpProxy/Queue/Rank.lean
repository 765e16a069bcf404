/-
  HttpProxy.Queue.Rank

  What gets smaller once `main_stat` is EXITING.  Every loop in the program a coroutine
  is in halts (`Ending`); outside of its programs a coroutine gets nearer to its end
  (`Client.rank`); and the main loop has less to do (`Shared.load`).
-/

import HttpProxy.Queue.Exiting
import Mathlib.Algebra.Order.BigOperators.Group.Finset

namespace HttpProxy

open Lib

-- ============================================================================
-- Every loop in a program halts
-- ============================================================================

section

variable (ix : Role → Nat)

theorem connTryIo_bounded (r : Role) (q : SysReq) (canBlock : Bool) :
    (connTryIo r q canBlock).Bounded (exitAnswers ix) := by
  refine ⟨fun _ st => ?_, (connTryIo_ends ix r q canBlock).mono fun _ _ _ _ => trivial,
    fun _ => trivial⟩
  cases st with
  | exiting => trivial
  | running =>
      intro res
      cases res with
      | again =>
          cases canBlock with
          | false => trivial
          | true => exact fun _ => trivial
      | _ => trivial

theorem bounded_rules : IoRules fun _ p => p.Bounded (exitAnswers ix) where
  ret := fun _ _ => trivial
  bind := fun _ _ _ _ hp hf => hp.bind hf
  loop := fun _ _ _ _ hbody hends => ⟨hbody, hends ix, fun _ => trivial⟩
  op := fun _ _ _ => trivial
  tryIo := connTryIo_bounded ix

theorem Begins.bounded {α : Type} {k : ReqK α} {p : Io α} (h : Begins k p) :
    p.Bounded (exitAnswers ix) := by
  cases h with
  | fetch => exact (bounded_rules ix).netFetchHttp _ _
  | badRequest req => exact (bounded_rules ix).netBadRequest _
  | badGateway j server => exact (bounded_rules ix).netBadGateway _
  | forward j s head => exact (bounded_rules ix).connWrite _ _
  | body j s data => exact (bounded_rules ix).netTransferBody _ _ _
  | ok200 j s =>
      exact (bounded_rules ix).bind _ _ _ _ ((bounded_rules ix).mark _)
        fun _ => (bounded_rules ix).connWrite _ _
  | tunnel j s => exact (bounded_rules ix).netTunnel _ _

variable {ix} {l l' : Local} {side : Side} {srv : ConnIx} {α : Type} {p p' : Io α}

theorem bounded_resume (ret : Int) (h : p.Bounded (exitAnswers ix)) :
    (ioResume ret p).Bounded (exitAnswers ix) := by
  unfold ioResume
  split
  · exact h ret
  · exact h

theorem IoCase.bounded (hs : IoCase l side srv p l' p') (h : p.Bounded (exitAnswers ix)) :
    p'.Bounded (exitAnswers ix) := by
  cases hs with
  | unroll body s k => exact h.unroll
  | stuck o k f => exact h
  | yield r d k hfreed => exact h
  | act hfreed hact => exact h _

end

/-- In the programs of a client every loop halts, once `main_stat` is EXITING. -/
structure Ending (cl : Client) : Prop where
  req : ∀ (α : Type) (k : ReqK α) (p : Io α), cl.req = .io k p →
    ∀ ix, p.Bounded (exitAnswers ix)
  rsp : ∀ h e p, cl.rsp = .serve h e p → ∀ ix, p.Bounded (exitAnswers ix)

theorem ending_invariant : ClientInvariant (fun _ _ _ => true) InRange Ending where
  new := fun sh conn _ _ =>
    ⟨fun α k p hreq => absurd hreq (by simp [World.newClient]), by simp [World.newClient]⟩
  req := by
    intro l l' ch _ _ hin h hs
    refine ⟨fun α k p hreq' ix => ?_, fun n e p hrsp' => ?_⟩
    · rcases hs.io_or_quiet hin with ⟨α₀, k₀, p₀, p₁, l₁, hreq, hio, rfl⟩ | hquiet
      · cases hreq'
        exact hio.bounded (h.req _ _ _ hreq ix)
      · exact (hquiet.begins α k p hreq').1.bounded ix
    · rw [hs.rsp_eq] at hrsp'
      exact h.rsp n e p hrsp'
  rsp := by
    intro l l' ch _ _ _ h hs
    refine ⟨fun α k p hreq' => ?_, fun n e p hrsp' ix => ?_⟩
    · rw [hs.req_eq] at hreq'
      exact h.req α k p hreq'
    · cases hs with
      | stuck f => exact h.rsp n e p hrsp' ix
      | io hdead hrsp hio =>
          cases hrsp'
          exact hio.bounded (h.rsp _ _ _ hrsp ix)
      | serve hdead hrsp hhead hn hcnt hkind =>
          cases hrsp'
          exact (bounded_rules ix).rspHandler _ _
      | exit hdead hrsp =>
          refine absurd hrsp' ?_
          unfold Local.rspExit
          dsimp only
          split <;> simp [Local.leave]
      | _ => exact absurd hrsp' (by simp [Local.rspPop, Local.park, Client.setWait])
  resume := by
    intro cl side ret _ _ h
    cases side with
    | req =>
        show Ending (cl.resumeReq ret)
        unfold Client.resumeReq
        dsimp only
        split
        · exact ⟨fun α k p hreq => absurd hreq (by simp), h.rsp⟩
        · rename_i k p hreq
          refine ⟨fun α' k' p' hreq' ix => ?_, h.rsp⟩
          cases hreq'
          exact bounded_resume ret (h.req _ k p hreq ix)
        · exact ⟨fun α k p hreq => absurd hreq (by simp), h.rsp⟩
        · exact ⟨fun α k p hreq => absurd hreq (by simp), h.rsp⟩
        · exact ⟨fun α k p hreq => absurd hreq (by simp), h.rsp⟩
        · exact ⟨h.req, h.rsp⟩
    | rsp =>
        show Ending (cl.resumeRsp ret)
        unfold Client.resumeRsp
        dsimp only
        split
        · exact ⟨h.req, by simp⟩
        · refine ⟨h.req, fun n e p hrsp => ?_⟩
          have hrsp' : (if ret = 0 then RspPc.loop else RspPc.exit) = .serve n e p := hrsp
          split at hrsp' <;> exact absurd hrsp' (by simp)
        · rename_i n e p hrsp
          refine ⟨h.req, fun n' e' p' hrsp' ix => ?_⟩
          cases hrsp'
          exact bounded_resume ret (h.rsp n e p hrsp ix)
        · exact ⟨h.req, h.rsp⟩
  err := fun cl i _ _ h => ⟨h.req, h.rsp⟩

theorem World.ending {ok : World → Choice → Prop} {w : World} (h : Run World.step ok World.init w)
    {c : ClientId} {cl : Client} (hcl : w.clients c = some cl) : Ending cl :=
  World.client_invariant ending_invariant (fun w ch _ => World.coOk_true w ch)
    (fun _ hr _ _ hcl => World.inRange hr hcl) h hcl

-- ============================================================================
-- Where the coroutines are
-- ============================================================================

/-- How far an I/O call is from the end of the request coroutine. -/
def ReqK.rank : {α : Type} → ReqK α → Nat
  | _, .forward _ _ _ => 18
  | _, .body _ _ => 17
  | _, .ok200 _ _ => 17
  | _, .tunnel _ _ => 16
  | _, .fetch => 12
  | _, .badGateway _ _ => 7
  | _, .badRequest _ => 7

/-- How far the request coroutine is from its end, when it gets no more connections. -/
def ReqPc.rank : ReqPc → Nat
  | .connect _ _ _ => 20
  | .connected _ _ _ _ => 19
  | .io k _ => k.rank
  | .resolve _ => 11
  | .dns _ _ => 10
  | .resolved _ _ => 9
  | .getConn _ _ _ => 9
  | .addrs _ _ => 8
  | .start => 7
  | .loop => 6
  | .done => 5
  | .final => 4
  | .cleanup => 3
  | .finished => 0

/-- How far the response coroutine is from its end, when it serves no more requests. -/
def RspPc.rank : RspPc → Nat
  | .start => 4
  | .empty => 4
  | .serve _ _ _ => 4
  | .loop => 3
  | .exit => 2
  | .finished => 0

def Client.rank (cl : Client) : Nat := cl.req.rank + cl.rsp.rank

section

variable {l l' : Local} {ch : Choice}

theorem gotServer_rank (l : Local) (j : ReqIx) (s : ConnIx) :
    (l.gotServer j s).cl.req.rank < 19 := by
  have hgot := l.gotServer_cases j s
  generalize l.gotServer j s = l₂ at hgot ⊢
  cases hgot <;> simp [ReqPc.rank, ReqK.rank]

/-- The head of the loop and the next address are where `main_stat` is looked at. -/
theorem reqStep_exiting (hexit : l.sh.mainStat = .exiting) (hs : reqStep l ch = some l') :
    (l.cl.req = .loop → l' = l.setReqPc .done) ∧
      ∀ j rps, l.cl.req = .addrs j rps → l' = l.noServer j := by
  refine ⟨fun hreq => ?_, fun j rps hreq => ?_⟩
  · have hstop : l.stopping = true := by simp [Local.stopping, hexit]
    rw [reqStep, hreq] at hs
    dsimp only at hs
    rw [if_pos hstop] at hs
    exact (Option.some.inj hs).symm
  · rw [reqStep, hreq] at hs
    have haddr : l.tryAddr j rps = l.noServer j := by
      cases rps with
      | nil => rfl
      | cons rp rps => rw [Local.tryAddr, if_pos hexit]
    exact (haddr ▸ Option.some.inj hs).symm

/-- Once `main_stat` is EXITING the request coroutine makes a step of the program it is in, gets
    nearer to its end, or meets undefined behaviour. -/
theorem reqStep_rank (hexit : l.sh.mainStat = .exiting)
    (hconn : ∀ j ep rps, l.cl.req ≠ .getConn j ep rps) (hs : reqStep l ch = some l') :
    (∃ (α : Type) (k : ReqK α) (p p' : Io α) (l₁ : Local), l.cl.req = .io k p ∧
      IoCase l .req k.srv p l₁ p' ∧ l' = l₁.setReqPc (.io k p')) ∨
      l'.sh.fault.isSome = true ∨ l'.cl.req.rank < l.cl.req.rank := by
  obtain ⟨hloop, haddrs⟩ := reqStep_exiting hexit hs
  have hcase := reqStep_cases hs
  have hleft (hreq : l.cl.req = .loop) : l'.cl.req.rank < l.cl.req.rank := by
    rw [hloop hreq, hreq]
    simp [ReqPc.rank]
  have hgone {j : ReqIx} {rps : List AddrInfo} (hreq : l.cl.req = .addrs j rps) :
      l'.cl.req.rank < l.cl.req.rank := by
    rw [haddrs j rps hreq, hreq]
    simp [ReqPc.rank, ReqK.rank]
  cases hcase with
  | io hreq hio => exact .inl ⟨_, _, _, _, _, hreq, hio, rfl⟩
  | stop hreq => exact .inr (.inr (hleft hreq))
  | fetch hreq => exact .inr (.inr (hleft hreq))
  | noAddr hreq => exact .inr (.inr (hgone hreq))
  | otherFamily hreq => exact .inr (.inr (hgone hreq))
  | notPooled hreq hfind => exact .inr (.inr (hgone hreq))
  | evict hreq hmain hfamily hfind hstat => exact .inr (.inr (hgone hreq))
  | reuse hreq hfind hstat => exact .inr (.inr (hgone hreq))
  | noConn hreq => exact absurd hreq (hconn _ _ _)
  | newConn hreq hfd => exact absurd hreq (hconn _ _ _)
  | connecting hreq hfd => exact absurd hreq (hconn _ _ _)
  | @connected j i rps ret hreq hret =>
      right
      right
      rw [hreq, Local.gotNewConn_eq]
      exact gotServer_rank _ j i
  | @resolved j eid res hreq =>
      right
      right
      obtain ⟨rps, hreq'⟩ := (l.dnsResolved_frame j eid res).2.2
      rw [hreq, hreq']
      simp [ReqPc.rank]
  | done hreq =>
      right
      right
      rw [hreq]
      unfold Local.reqDone
      dsimp only
      split <;> simp [ReqPc.rank]
  | cleanup hreq =>
      right
      right
      rw [hreq]
      simp [Local.reqCleanup, Local.leave, ReqPc.rank]
  | noLookup hreq => exact .inr (.inl rfl)
  | dispatch hreq _ _ => exact .inr (.inr (by simp [hreq, ReqPc.rank, ReqK.rank]))
  | notForwarded hreq _ => exact .inr (.inr (by simp [hreq, ReqPc.rank, ReqK.rank]))
  | bodyFailed hreq _ => exact .inr (.inr (by simp [hreq, ReqPc.rank, ReqK.rank]))
  | okFailed hreq _ => exact .inr (.inr (by simp [hreq, ReqPc.rank, ReqK.rank]))
  | _ =>
      right
      right
      rename_i hreq
      simp [hreq, ReqPc.rank, ReqK.rank]

/-- The same for the response coroutine. -/
theorem rspStep_rank (hexit : l.sh.mainStat = .exiting) (hs : rspStep l ch = some l') :
    (∃ h e p p' l₁, l.cl.rsp = .serve h e p ∧ IoCase l .rsp e.server p l₁ p' ∧
      l' = l₁.setRspPc (.serve h e p')) ∨
      l'.sh.fault.isSome = true ∨ l'.cl.rsp.rank < l.cl.rsp.rank := by
  have hstop : l.stopping = true := by simp [Local.stopping, hexit]
  have hleft (hdead : l.cxtDead = false) (hrsp : l.cl.rsp = .loop) :
      l'.cl.rsp.rank < l.cl.rsp.rank := by
    have hnotdead : ¬ l.cxtDead = true := by simp [hdead]
    rw [rspStep, if_neg hnotdead, hrsp] at hs
    dsimp only at hs
    rw [Local.rspLoop, if_pos hstop] at hs
    rw [← Option.some.inj hs, hrsp]
    simp [RspPc.rank]
  cases rspStep_cases hs with
  | stuck f => exact .inr (.inl rfl)
  | leave hdead hrsp => exact .inr (.inr (hleft hdead hrsp))
  | sleep hdead hrsp _ => exact .inr (.inr (hleft hdead hrsp))
  | serve hdead hrsp _ _ _ _ => exact .inr (.inr (hleft hdead hrsp))
  | io hdead hrsp hio => exact .inl ⟨_, _, _, _, _, hrsp, hio, rfl⟩
  | evict hdead hrsp _ _ _ => exact .inr (.inr (by simp [hrsp, Local.rspPop, RspPc.rank]))
  | again hdead hrsp _ => exact .inr (.inr (by simp [hrsp, RspPc.rank]))
  | pop hdead hrsp _ _ => exact .inr (.inr (by simp [hrsp, Local.rspPop, RspPc.rank]))
  | exit hdead hrsp =>
      right
      right
      rw [hrsp]
      unfold Local.rspExit
      dsimp only
      split <;> simp [Local.leave, RspPc.rank]

/-- The coroutine on one side is in program `p`, which works on server `srv`. -/
inductive InProg (cl : Client) : Side → ConnIx → {α : Type} → Io α → Prop where
  | req {α : Type} {k : ReqK α} {p : Io α} : cl.req = .io k p → InProg cl .req k.srv p
  | rsp {h : Nat} {e : Entry} {p : Io Int} : cl.rsp = .serve h e p → InProg cl .rsp e.server p

theorem InProg.unique {cl : Client} {side : Side} {srv srv' : ConnIx} {α α' : Type} {p : Io α}
    {p' : Io α'} (h : InProg cl side srv p) (h' : InProg cl side srv' p') :
    α = α' ∧ srv = srv' ∧ p ≍ p' := by
  cases h with
  | req hreq =>
      cases h' with
      | req hreq' =>
          cases hreq.symm.trans hreq'
          exact ⟨rfl, rfl, .rfl⟩
  | rsp hrsp =>
      cases h' with
      | rsp hrsp' =>
          cases hrsp.symm.trans hrsp'
          exact ⟨rfl, rfl, .rfl⟩

theorem Idle.checked {cl : Client} {side : Side} {srv : ConnIx} {α : Type} {p : Io α}
    (h : Idle cl) (hprog : InProg cl side srv p) : Checked false p := by
  cases hprog with
  | req hreq => exact h.req _ _ _ hreq
  | rsp hrsp => exact h.rsp _ _ _ hrsp

theorem Ending.bounded {cl : Client} {side : Side} {srv : ConnIx} {α : Type} {p : Io α}
    (h : Ending cl) (hprog : InProg cl side srv p) (ix : Role → Nat) :
    p.Bounded (exitAnswers ix) := by
  cases hprog with
  | req hreq => exact h.req _ _ _ hreq ix
  | rsp hrsp => exact h.rsp _ _ _ hrsp ix

/-- A step of a coroutine once `main_stat` is EXITING. -/
theorem coStep_rank {side : Side} (hexit : l.sh.mainStat = .exiting) (hidle : Idle l.cl)
    (hs : coStep side l ch = some l') :
    l'.sh.fault.isSome = true ∨ l'.cl.rank < l.cl.rank ∨
      ∃ (α : Type) (srv : ConnIx) (p p' : Io α) (l₁ : Local), InProg l.cl side srv p ∧
        IoCase l side srv p l₁ p' ∧ InProg l'.cl side srv p' ∧ l'.sh = l₁.sh ∧
        l'.cl.mem = l₁.cl.mem ∧ l'.cl.rank = l.cl.rank := by
  cases side with
  | req =>
      have hrsp := (reqStep_cases hs).rsp_eq
      rcases reqStep_rank hexit hidle.getConn hs with
        ⟨α, k, p, p', l₁, hreq, hio, rfl⟩ | hfault | hlt
      · refine .inr (.inr ⟨α, k.srv, p, p', l₁, .req hreq, hio, .req rfl, rfl, rfl, ?_⟩)
        rw [Client.rank, Client.rank, hrsp, hreq]
        rfl
      · exact .inl hfault
      · right
        left
        rw [Client.rank, Client.rank, hrsp]
        omega
  | rsp =>
      have hreq := (rspStep_cases hs).req_eq
      rcases rspStep_rank hexit hs with ⟨h, e, p, p', l₁, hrsp, hio, rfl⟩ | hfault | hlt
      · refine .inr (.inr ⟨Int, e.server, p, p', l₁, .rsp hrsp, hio, .rsp rfl, rfl, rfl, ?_⟩)
        rw [Client.rank, Client.rank, hreq, hrsp]
        rfl
      · exact .inl hfault
      · right
        left
        rw [Client.rank, Client.rank, hreq]
        omega

-- ============================================================================
-- A step of a program
-- ============================================================================

/-- How many bytes the buffer of each connection holds that have not been taken. -/
def Mem.unread (m : Mem) : ConnIx → Nat := fun i => (m.conns i).io.unread

@[simp] theorem connClose_unread (l : Local) (i : ConnIx) :
    (l.connClose i).cl.mem.unread = l.cl.mem.unread := by
  unfold Local.connClose
  split
  · rfl
  · funext j
    rw [Mem.unread, Mem.unread]
    by_cases hj : j = i
    · subst hj
      simp [Mem.setConn, Local.closeFd, Local.connDel]
    · simp [Mem.setConn, Local.closeFd, Local.connDel, Function.update_of_ne hj]

/-- The answer is one of those `conn_io.c` and the handlers are known to end with. -/
theorem IoAct.answers {side : Side} {srv : ConnIx} {o : IoOp} {r : o.Res}
    (hact : IoAct l side srv o r l') (hexit : l.sh.mainStat = .exiting)
    (hsys : ∀ r q, o ≠ .sys r q) :
    exitAnswers (Role.ix srv) o r l.cl.mem.unread l'.cl.mem.unread := by
  cases hact with
  | mainStat => exact ⟨hexit, rfl⟩
  | stat r => rfl
  | getBuf r => exact ⟨rfl, rfl⟩
  | setBuf r b =>
      show Mem.unread _ = Function.update l.cl.mem.unread (r.ix srv) b.unread
      funext j
      by_cases hj : j = r.ix srv
      · subst hj
        simp [Mem.unread, Mem.setConn]
      · simp [Mem.unread, Mem.setConn, Function.update_of_ne hj]
  | sys r q res hok => exact absurd rfl (hsys r q)
  | close r => exact connClose_unread l _
  | mark a => rfl
  | log size => rfl

end

-- ============================================================================
-- What the main loop still has to do
-- ============================================================================

/-- How far the main loop is from the end of `proxy_done`, with `q` events in the queue. -/
def Main.load (q : Nat) : Main → Nat
  | .eventWork => 1
  | .eventRet => if q = 0 then 2 else 0
  | .next (.done ents) => 10 * ents.length + 2
  | .callWrite _ _ (.done ents) => 10 * ents.length + 5
  | .callRead _ _ (.done ents) => 10 * ents.length + 8
  | .dnsRead k => k.load q + 1
  | _ => 0

/-- The lookups that will still put an event into the queue. -/
def Dns.load (dns : Dns) : Nat :=
  (if dns.sigPending.isSome then 5 else 0) + 10 * dns.flight.length

/-- The same with the events that are in the queue, and those that will be. -/
def Shared.load (sh : Shared) : Nat :=
  3 * sh.ev.queue.length + sh.main.load sh.ev.queue.length + sh.dns.load

/-- The main loop gets further, and the queue stays as it is. -/
theorem Shared.load_lt {sh sh' : Shared} (hqueue : sh'.ev.queue = sh.ev.queue)
    (hdns : sh'.dns = sh.dns)
    (hmain : sh'.main.load sh.ev.queue.length < sh.main.load sh.ev.queue.length) :
    sh'.load < sh.load := by
  rw [Shared.load, Shared.load, hqueue, hdns]
  omega

theorem Main.load_succ (m : Main) (q : Nat) : m.load (q + 1) ≤ m.load q + 1 := by
  fun_induction Main.load q m with
  | case7 k ih =>
      simp only [Main.load]
      omega
  | _ => simp [Main.load]

section

variable {l l' : Local} {side : Side} {srv : ConnIx} {α : Type} {p p' : Io α}

/-- A step of a program neither posts an event nor moves the main loop. -/
theorem IoCase.load (hs : IoCase l side srv p l' p') : l'.sh.load = l.sh.load := by
  cases hs with
  | yield r d k hfreed => rfl
  | act hfreed hact =>
      cases hact with
      | sys r q res hok =>
          have hquiet := Local.ioQuiet_sysIo l (r.ix srv) side r q res
          rw [Shared.load, Shared.load, hquiet.ev, hquiet.dns, hquiet.main]
      | close r => simp [Shared.load]
      | _ => rfl
  | _ => rfl

/-- The coroutine goes on, or gives up control. -/
theorem IoCase.callCxt (hs : IoCase l side srv p l' p') :
    l'.sh.callCxt = l.sh.callCxt ∨ l'.sh.callCxt = none := by
  cases hs with
  | yield r d k hfreed => exact .inr (by cases side <;> rfl)
  | act hfreed hact =>
      cases hact with
      | sys r q res hok => exact .inl (Local.ioQuiet_sysIo l (r.ix srv) side r q res).callCxt
      | close r => simp
      | _ => exact .inl rfl
  | _ => exact .inl rfl

end

namespace World

variable {w w' : World} {ch : Choice}

/-- The sum of the ranks of all clients. -/
def rank (w : World) : Nat :=
  Finset.sum (Finset.range w.nclients) fun c => ((w.clients c).map Client.rank).getD 0

theorem rank_setClient {c : ClientId} {cl : Client} (hc : c < w.nclients)
    (hcl : w.clients c = some cl) (cl' : Client) :
    (w.setClient c cl').rank + cl.rank = w.rank + cl'.rank := by
  have hmem : c ∈ Finset.range w.nclients := Finset.mem_range.mpr hc
  have hrest : Finset.sum ((Finset.range w.nclients).erase c)
        (fun c' => (((w.setClient c cl').clients c').map Client.rank).getD 0) =
      Finset.sum ((Finset.range w.nclients).erase c)
        (fun c' => ((w.clients c').map Client.rank).getD 0) := by
    apply Finset.sum_congr rfl
    intro c' hc'
    have hsame : (w.setClient c cl').clients c' = w.clients c' :=
      Function.update_of_ne (Finset.ne_of_mem_erase hc') _ _
    rw [hsame]
  have hnew := Finset.add_sum_erase (Finset.range w.nclients)
    (fun c' => (((w.setClient c cl').clients c').map Client.rank).getD 0) hmem
  have hold := Finset.add_sum_erase (Finset.range w.nclients)
    (fun c' => ((w.clients c').map Client.rank).getD 0) hmem
  have hself : (w.setClient c cl').clients c = some cl' := Function.update_self _ _ _
  rw [hself, hrest] at hnew
  rw [hcl] at hold
  simp only [Option.map_some, Option.getD_some] at hnew hold
  have hrank : w.rank = Finset.sum (Finset.range w.nclients)
    fun c' => ((w.clients c').map Client.rank).getD 0 := rfl
  have hrank' : (w.setClient c cl').rank = Finset.sum (Finset.range w.nclients)
    fun c' => (((w.setClient c cl').clients c').map Client.rank).getD 0 := rfl
  omega

theorem resume_rank (cl : Client) (side : Side) (ret : Int) :
    (cl.resume side ret).rank ≤ cl.rank := by
  cases side with
  | req =>
      show (cl.resumeReq ret).rank ≤ cl.rank
      unfold Client.resumeReq
      dsimp only
      split <;> rename_i hreq <;> simp [Client.rank, hreq, ReqPc.rank]
  | rsp =>
      show (cl.resumeRsp ret).rank ≤ cl.rank
      unfold Client.resumeRsp
      dsimp only
      split
      · rename_i hrsp
        simp [Client.rank, hrsp, RspPc.rank]
      · rename_i hrsp
        have hle : (if ret = 0 then RspPc.loop else RspPc.exit).rank ≤ 4 := by
          split <;> simp [RspPc.rank]
        simpa [Client.rank, hrsp, RspPc.rank] using hle
      · rename_i hrsp
        simp [Client.rank, hrsp, RspPc.rank]
      · exact Nat.le_refl _

/-- A step of the main loop takes no coroutine back. -/
theorem mainStep_rank (hexit : w.sh.mainStat = .exiting) (hmain : w.sh.main.Leaving)
    (hrun : w.sh.callCxt = none) (h : w.mainStep ch = some w') : w'.rank ≤ w.rank := by
  obtain ⟨-, -, hn⟩ := mainStep_leaving hexit hmain h
  rw [rank, rank, hn]
  apply Finset.sum_le_sum
  intro c hc
  have hlt : c < w.nclients := Finset.mem_range.mp hc
  cases hcl' : w'.clients c with
  | none => exact Nat.zero_le _
  | some cl' =>
      cases mainStep_case hrun h hcl' with
      | same hcl _ => rw [hcl]
      | co hrun' _ _ _ _ => exact absurd (hrun.symm.trans hrun') (by simp)
      | resume _ hcl _ heq _ =>
          rw [hcl, heq]
          exact resume_rank _ _ _
      | err _ _ hcl _ heq =>
          rw [hcl, heq]
          exact Nat.le_refl _
      | new hc' _ _ _ _ => exact absurd hc' (Nat.ne_of_lt hlt)

theorem asyncResume_load (w : World) (x : Co) (ret : Int) {m : Main}
    (hm : m.load w.sh.ev.queue.length < w.sh.main.load w.sh.ev.queue.length) :
    (w.asyncResume x ret m).sh.fault.isSome = true ∨
      (w.asyncResume x ret m).sh.load < w.sh.load := by
  unfold asyncResume
  split
  · exact .inl rfl
  · split
    · exact .inl rfl
    · exact .inr (Shared.load_lt rfl rfl hm)

theorem callHandler_load {h : Handler} {ev : EpollEvent} {k : Main} (herr : ev.err = true)
    (hk : k.load w.sh.ev.queue.length + 1 < w.sh.main.load w.sh.ev.queue.length) :
    (w.callHandler h ev k).sh.fault.isSome = true ∨
      (w.callHandler h ev k).sh.load < w.sh.load := by
  cases h with
  | co x => exact asyncResume_load w x _ (by omega)
  | accept sfd =>
      right
      rw [callHandler, if_pos herr]
      exact Shared.load_lt rfl rfl (Nat.lt_of_succ_lt hk)
  | dns => exact .inr (Shared.load_lt rfl rfl hk)

/-- `event_work` dispatches an event, or leaves. -/
theorem eventWork_load (hexit : w.sh.mainStat = .exiting) (hpc : w.sh.main = .eventWork) :
    w.eventWork.sh.fault.isSome = true ∨ w.eventWork.sh.load < w.sh.load := by
  unfold eventWork
  split
  · rename_i hqueue
    rw [hexit]
    refine .inr (Shared.load_lt rfl rfl ?_)
    rw [hpc]
    exact Nat.zero_lt_one
  · rename_i eid d rest hqueue
    have hret : Main.eventRet.load w.sh.ev.queue.length < w.sh.main.load w.sh.ev.queue.length := by
      simp [hpc, hqueue, Main.load]
    split
    · exact .inr (Shared.load_lt rfl rfl hret)
    · exact asyncResume_load w _ _ hret

theorem connErr_sh (w : World) (o : Option (ClientId × ConnIx)) :
    ((o.map w.connErr).getD w).sh.ev = w.sh.ev ∧ ((o.map w.connErr).getD w).sh.dns = w.sh.dns := by
  cases o with
  | none => exact ⟨rfl, rfl⟩
  | some t =>
      rw [Option.map_some, Option.getD_some]
      unfold connErr
      split
      · exact ⟨rfl, rfl⟩
      · split <;> exact ⟨rfl, rfl⟩

/-- A step of the main loop brings it nearer to the end of `proxy_done`. -/
theorem mainStep_load (hexit : w.sh.mainStat = .exiting) (hmain : w.sh.main.Leaving)
    (h : w.mainStep ch = some w') :
    w'.sh.fault.isSome = true ∨ w'.sh.load < w.sh.load := by
  unfold mainStep at h
  split at h <;> rename_i hpc
  · rw [← Option.some.inj h]
    exact eventWork_load hexit hpc
  · rw [← Option.some.inj h]
    right
    rw [Shared.load, Shared.load, hpc]
    cases hqueue : w.sh.ev.queue with
    | nil => simp [setMain, Main.load]
    | cons e rest =>
        simp only [setMain, Main.load, List.tail_cons, List.length_cons]
        split <;> omega
  · rw [hpc] at hmain
    exact hmain.elim
  · rename_i t
    rw [hpc] at hmain
    cases t with
    | batch evs => exact hmain.elim
    | done ents =>
        rw [← Option.some.inj h]
        right
        cases ents with
        | nil =>
            refine Shared.load_lt rfl rfl ?_
            rw [hpc]
            exact Nat.lt_succ_self 1
        | cons nh ents =>
            obtain ⟨hev, hdns⟩ := connErr_sh w nh.err
            refine Shared.load_lt (congrArg Events.queue hev) hdns ?_
            rw [hpc]
            simp only [nextTodo, setMain, Main.load, List.length_cons]
            omega
  · rename_i ev nh t
    rw [hpc] at hmain
    cases t with
    | batch evs => exact hmain.elim
    | done ents =>
        split at h
        · rw [← Option.some.inj h]
          refine .inr (Shared.load_lt rfl rfl ?_)
          rw [hpc]
          simp only [setMain, Main.load]
          omega
        · rw [← Option.some.inj h]
          refine callHandler_load hmain ?_
          rw [hpc]
          simp only [Main.load]
          omega
  · rename_i ev nh t
    rw [hpc] at hmain
    cases t with
    | batch evs => exact hmain.elim
    | done ents =>
        split at h
        · rw [← Option.some.inj h]
          refine .inr (Shared.load_lt rfl rfl ?_)
          rw [hpc]
          simp only [setMain, Main.load]
          omega
        · rw [← Option.some.inj h]
          refine callHandler_load hmain ?_
          rw [hpc]
          simp only [Main.load]
          omega
  · rw [hpc] at hmain
    exact hmain.elim
  · rename_i k
    split at h
    · rename_i o eid hfd hpending
      rw [← Option.some.inj h]
      right
      have hk := k.load_succ w.sh.ev.queue.length
      simp only [Shared.load, Dns.load, hpc, hpending, Main.load, Events.eventPost,
        List.length_append, List.length_singleton, Option.isSome_some, Option.isSome_none,
        if_true, Bool.false_eq_true, if_false]
      omega
    · rw [← Option.some.inj h]
      refine .inr (Shared.load_lt rfl rfl ?_)
      rw [hpc]
      exact Nat.lt_succ_self _
  · exact absurd h (by simp)

theorem dnsDone_load {eid : EventId} (h : w.dnsDone eid = some w') : w'.sh.load < w.sh.load := by
  unfold dnsDone at h
  split at h
  · rename_i hmem
    rw [← Option.some.inj h]
    have hlen := List.length_erase_of_mem hmem
    have hpos := List.length_pos_of_mem hmem
    simp only [Shared.load, Dns.load, hlen, Option.isSome_some, if_true]
    split <;> omega
  · exact absurd h (by simp)

end World

end HttpProxy
