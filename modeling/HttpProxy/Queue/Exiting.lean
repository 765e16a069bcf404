/-
  HttpProxy.Queue.Exiting

  Once `main_stat` is EXITING nothing is received or sent any more (`exiting_silent`).
  `conn_try_io` looks at `main_stat` before each system call, and the main loop only
  writes it while no coroutine runs; so a coroutine that is about to make a system call
  has seen RUNING in the same turn (`checkedSpec`), and it still holds.
  `net_connect_to_server` looks at it before it makes a connection, and the main loop
  calls accept handlers with an error from then on (`Main.Leaving`).
-/

import HttpProxy.Core.Rules
import HttpProxy.Queue.Labels
import HttpProxy.System.Calls

namespace HttpProxy

open Lib

-- ============================================================================
-- Checked programs
-- ============================================================================

/-- A system call is only made by a turn that has seen RUNING; the ghost state says whether this
    one has. -/
def checkedSpec : Prog.Spec IoOp IoOp.Res Bool where
  pre o b := match o with
    | .sys _ _ => b = true
    | _ => True
  post o r b b' := match o, r with
    | .mainStat, st => b' = decide (st = .running)
    | .yield _ _, _ => b' = false
    | _, _ => b' = b

abbrev Checked {α : Type} (b : Bool) (p : Io α) : Prop := p.Wlp checkedSpec (fun _ _ => True) b

/-- conn_try_io looks at main_stat in every turn of its loop, before the system call. -/
theorem connTryIo_checked (r : Role) (q : SysReq) (canBlock : Bool) (b : Bool) :
    Checked b (connTryIo r q canBlock) := by
  refine Prog.Wlp.loop (fun _ _ => True) trivial ?_
  rintro ⟨⟩ b -
  refine ⟨trivial, fun st b' hb' => ?_⟩
  cases st with
  | exiting => trivial
  | running =>
      refine ⟨hb', fun res b'' _ => ?_⟩
      cases res with
      | again =>
          cases canBlock with
          | false => trivial
          | true => exact ⟨trivial, fun _ _ _ => trivial⟩
      | _ => trivial

/-- So every function of core/conn_io.c and above it is checked, whatever the turn has seen. -/
theorem checked_rules : IoRules fun _ p => ∀ b, Checked b p where
  ret := fun _ _ _ => trivial
  bind := fun _ _ _ _ hp hf b => Prog.Wlp.bind ((hp b).mono fun a b' _ => hf a b')
  loop := by
    intro σ β body s hbody _ b
    refine Prog.Wlp.loop (fun _ _ => True) trivial fun s b _ => (hbody s b).mono fun x _ _ => ?_
    cases x <;> trivial
  op := by
    intro o ho b
    refine ⟨?_, fun _ _ _ => trivial⟩
    cases o with
    | sys r q => exact ho.elim
    | _ => trivial
  tryIo := connTryIo_checked

/-- A program at a wait will be in another turn when it goes on. -/
theorem Checked.parked {α : Type} {r : Role} {d : Dir} {k : Int → Io α} {b : Bool}
    (h : Checked b (.call (.yield r d) k)) : Checked false (.call (.yield r d) k) :=
  ⟨trivial, fun x _ hb => h.2 x _ hb⟩

/-- A program that is resumed has not seen main_stat in its new turn. -/
theorem Checked.resume {α : Type} {p : Io α} (ret : Int) (h : Checked false p) :
    Checked false (ioResume ret p) := by
  unfold ioResume
  split
  · exact h.2 ret false rfl
  · exact h

/-- What the request coroutine begins is checked. -/
theorem Begins.checked {α : Type} {k : ReqK α} {p : Io α} (h : Begins k p) (b : Bool) :
    Checked b p := by
  cases h with
  | fetch => exact checked_rules.netFetchHttp _ _ b
  | badRequest req => exact checked_rules.netBadRequest _ b
  | badGateway j server => exact checked_rules.netBadGateway _ b
  | forward j s head => exact checked_rules.connWrite _ _ b
  | body j s data => exact checked_rules.netTransferBody _ _ _ b
  | ok200 j s =>
      exact checked_rules.bind _ _ _ _ (checked_rules.mark _)
        (fun _ => checked_rules.connWrite _ _) b
  | tunnel j s => exact checked_rules.netTunnel _ _ b

section

variable {l l' : Local} {side : Side} {srv : ConnIx} {α : Type} {p p' : Io α}

/-- A step of a program that makes system calls only in a turn that has seen RUNING is again one
    of such a program. -/
theorem IoCase.checked (h : IoCase l side srv p l' p') {b : Bool} (hp : Checked b p)
    (hb : b = true → l.sh.mainStat = .running) :
    ∃ b', Checked b' p' ∧
      (b' = true → l'.sh.mainStat = .running ∧ l'.sh.callCxt = l.sh.callCxt) := by
  cases h with
  | unroll body s k => exact ⟨b, hp.unroll, fun hb' => ⟨hb hb', rfl⟩⟩
  | stuck o k f => exact ⟨b, hp, fun hb' => ⟨hb hb', rfl⟩⟩
  | yield r d k hfreed => exact ⟨false, hp.parked, fun hb' => absurd hb' (by simp)⟩
  | act hfreed hact =>
      cases hact with
      | mainStat => exact ⟨_, hp.2 _ _ rfl, fun hb' => ⟨by simpa using hb', rfl⟩⟩
      | sys r q res hok =>
          refine ⟨b, hp.2 _ _ rfl, fun hb' => ?_⟩
          cases q <;> cases res <;> exact ⟨hb hb', rfl⟩
      | close r => exact ⟨b, hp.2 _ _ rfl, fun hb' => by simpa using hb hb'⟩
      | _ => exact ⟨b, hp.2 _ _ rfl, fun hb' => ⟨hb hb', rfl⟩⟩

end

-- ============================================================================
-- Steps that neither move bytes nor open descriptors
-- ============================================================================

/-- The operation moved bytes, or tried to. -/
def Act.isIo (a : Act) : Bool :=
  match a.kind with
  | .recv => true
  | .send => true
  | _ => false

namespace Net

/-- From `net` to `net'` nothing was received or sent, and no descriptor was opened. -/
structure Calm (net net' : Net) : Prop where
  acts : net'.acts.filter Act.isIo = net.acts.filter Act.isIo
  fds : ∀ fd, net.fds fd = none → net'.fds fd = none

variable {net net₁ net' : Net}

theorem Calm.refl (net : Net) : net.Calm net := ⟨rfl, fun _ h => h⟩

/-- Nothing is opened on the way, and what is closed stays closed. -/
theorem Calm.trans (h₁ : net.Calm net₁) (h₂ : net₁.Calm net') : net.Calm net' :=
  ⟨h₂.acts.trans h₁.acts, fun fd h => h₂.fds fd (h₁.fds fd h)⟩

/-- Deregistering or closing is recorded, and moves no bytes. -/
theorem calm_act (net : Net) (c : ClientId) (i : ConnIx) (fd : Fd) {kind : ActKind}
    (hkind : kind = .del ∨ kind = .close) : net.Calm (net.act c i kind fd) := by
  refine ⟨?_, fun _ h => h⟩
  rcases hkind with rfl | rfl <;> simp [act, Act.isIo]

/-- net_pull_del touches no descriptor. -/
theorem calm_netPullDel (net : Net) (fd : Fd) : net.Calm (net.netPullDel fd) := by
  unfold netPullDel
  split <;> exact ⟨rfl, fun _ h => h⟩

/-- Closing opens nothing. -/
theorem calm_sysClose (net : Net) (fd : Fd) : net.Calm (net.sysClose fd) := by
  refine ⟨rfl, fun fd' h => ?_⟩
  by_cases hfd : fd' = fd
  · subst hfd
    exact Function.update_self _ _ _
  · exact (Function.update_of_ne hfd _ _).trans h

end Net

/-- The same of all that is shared, with `main_stat` left alone. -/
structure Shared.Calm (sh sh' : Shared) : Prop where
  mainStat : sh'.mainStat = sh.mainStat
  net : sh.net.Calm sh'.net

theorem Shared.Calm.refl (sh : Shared) : sh.Calm sh := ⟨rfl, .refl _⟩

theorem Shared.Calm.trans {sh sh₁ sh' : Shared} (h₁ : sh.Calm sh₁) (h₂ : sh₁.Calm sh') :
    sh.Calm sh' :=
  ⟨h₂.mainStat.trans h₁.mainStat, h₁.net.trans h₂.net⟩

namespace Local

abbrev Calm (l l' : Local) : Prop := l.sh.Calm l'.sh

/-- An operation that leaves the descriptors alone is calm. -/
theorem Calm.of_eq {l l' : Local} (hstat : l'.sh.mainStat = l.sh.mainStat)
    (hnet : l'.sh.net = l.sh.net) : l.Calm l' :=
  ⟨hstat, hnet ▸ .refl _⟩

variable (l : Local) (i : ConnIx) (j : ReqIx)

/-- Deregistering a connection moves no bytes. -/
theorem connDel_calm : l.Calm (l.connDel i) :=
  ⟨rfl, (l.sh.net.calm_act l.c i _ (.inl rfl)).trans (Net.calm_netPullDel _ _)⟩

theorem closeFd_calm : l.Calm (l.closeFd i) := by
  refine ⟨rfl, (l.connDel_calm i).net.trans ?_⟩
  exact ((l.connDel i).sh.net.calm_act l.c i _ (.inr rfl)).trans (Net.calm_sysClose _ _)

/-- Closing a connection moves no bytes. -/
theorem connClose_calm : l.Calm (l.connClose i) := by
  unfold connClose
  split
  · exact .refl _
  · exact l.closeFd_calm i

theorem connDone_calm : l.Calm (l.connDone i) := by
  unfold connDone
  split
  · exact l.closeFd_calm i
  · exact l.connClose_calm i

/-- Dropping a reference may close the connection, and moves no bytes. -/
theorem decrefConn_calm : l.Calm (l.decrefConn i) := by
  have hnull : l.Calm (l.decrefConnNull i) := .of_eq (by simp) (by simp)
  unfold decrefConn
  dsimp only
  split
  · exact hnull.trans ((l.decrefConnNull i).connDone_calm i)
  · exact hnull

theorem increfConn_calm : l.Calm (l.increfConn i) := .of_eq (by simp) (by simp)

theorem decrefReq_calm : l.Calm (l.decrefReq j) := .of_eq (by simp) (by simp)

/-- A coroutine may go on waiting. -/
theorem park_calm (side : Side) (x : Wait) : l.Calm (l.park side x) := by
  cases side <;> cases x <;> exact ⟨rfl, rfl, fun _ h => h⟩

theorem reqFailed_calm (server : Option ConnIx) : l.Calm (l.reqFailed j server) := by
  cases server with
  | none => exact l.decrefReq_calm j
  | some s => exact (l.decrefConn_calm s).trans ((l.decrefConn s).decrefReq_calm j)

/-- A request may still be queued. -/
theorem appendEntry_calm (s : ConnIx) : l.Calm (l.appendEntry j s) :=
  .of_eq (by simp [appendEntry]) (by simp [appendEntry])

theorem forwarded_calm (s : ConnIx) : l.Calm (l.forwarded j s) := by
  unfold forwarded
  dsimp only
  split <;> exact ⟨(l.appendEntry_calm j s).mainStat, (l.appendEntry_calm j s).net⟩

theorem pooled_calm : l.Calm (l.pooled i) := by
  unfold pooled
  dsimp only
  split
  · exact (l.connInit i).decrefConn_calm i
  · exact .refl _

theorem evicted_calm (ep : Endpoint) (s : ConnIx) : l.Calm (l.evicted ep s) :=
  decrefConn_calm { l with cl.cxt := l.cl.cxt.poolDel ep } s

/-- A connection that is there already is used without opening one. -/
theorem gotServer_calm (s : ConnIx) : l.Calm (l.gotServer j s) := by
  have hgot := l.gotServer_cases j s
  generalize l.gotServer j s = l₂ at hgot ⊢
  cases hgot with
  | http _ => exact .refl _
  | connect _ => exact ⟨(l.appendEntry_calm j s).mainStat, (l.appendEntry_calm j s).net⟩

theorem gotNewConn_calm : l.Calm (l.gotNewConn j i) := by
  rw [gotNewConn_eq]
  exact ((l.pooled_calm i).trans ((l.pooled i).increfConn_calm i)).trans (gotServer_calm _ j i)

/-- By induction on what the pool holds. -/
theorem dropPool_calm (ts : List (Endpoint × ConnIx)) : l.Calm (l.dropPool ts) := by
  induction ts generalizing l with
  | nil => exact .refl _
  | cons t ts ih =>
      exact ((l.connClose_calm t.2).trans ((l.connClose t.2).decrefConn_calm t.2)).trans (ih _)

/-- By induction on what the list holds. -/
theorem dropList_calm (es : List (Nat × Entry)) : l.Calm (l.dropList es) := by
  induction es generalizing l with
  | nil => exact .refl _
  | cons e es ih =>
      refine Shared.Calm.trans ?_ (ih ((l.decrefConn e.2.server).decrefReq e.2.req))
      exact (l.decrefConn_calm _).trans ((l.decrefConn _).decrefReq_calm _)

/-- req_done posts its farewell and waits. -/
theorem reqDone_calm : l.Calm l.reqDone := by
  unfold reqDone
  dsimp only
  split <;> exact ⟨rfl, rfl, fun _ h => h⟩

/-- The context is torn down without a byte moved. -/
theorem reqCleanup_calm : l.Calm l.reqCleanup := by
  unfold reqCleanup
  have hpool := l.dropPool_calm l.cl.cxt.pool
  generalize l.dropPool l.cl.cxt.pool = l₁ at hpool ⊢
  dsimp only
  have hlist := dropList_calm { l₁ with cl.cxt.pool := [] } l₁.cl.cxt.list.cells
  generalize dropList { l₁ with cl.cxt.pool := [] } l₁.cl.cxt.list.cells = l₂ at hlist ⊢
  have hlast := decrefConn_calm { l₂ with
    cl.cxt.list := .empty
    cl.hist.npop := l₂.cl.hist.appended.length
    sh.ev := l₂.sh.ev.eventFreeId l₂.cl.cxt.evReq } 0
  exact (hpool.trans hlist).trans ⟨hlast.mainStat, hlast.net⟩

theorem rspPop_calm (h : Nat) (e : Entry) : l.Calm (l.rspPop h e) :=
  (l.decrefConn_calm e.server).trans ((l.decrefConn e.server).decrefReq_calm e.req)

/-- The response coroutine leaves without a byte moved. -/
theorem rspExit_calm : l.Calm l.rspExit := by
  unfold rspExit
  dsimp only
  split
  · have hlast := decrefConn_calm { l with
      cl.cxt.reqWillExit := true
      sh.ev := (l.sh.ev.eventPost l.cl.cxt.evReq false).eventFreeId l.cl.cxt.evRsp } 0
    exact ⟨hlast.mainStat, hlast.net⟩
  · have hlast := decrefConn_calm { l with
      cl.cxt.reqWillExit := true
      sh.ev := l.sh.ev.eventFreeId l.cl.cxt.evRsp } 0
    exact ⟨hlast.mainStat, hlast.net⟩

end Local

-- ============================================================================
-- One client
-- ============================================================================

/-- The coroutine runs, and the process is not about to exit. -/
def Shared.Turn (sh : Shared) (x : Co) : Prop := sh.callCxt = some x ∧ sh.mainStat = .running

/-- A coroutine that is about to make a system call, or to make a connection, has its turn. -/
structure Heeds (sh : Shared) (c : ClientId) (cl : Client) : Prop where
  req : ∀ (α : Type) (k : ReqK α) (p : Io α), cl.req = .io k p →
    ∃ b, Checked b p ∧ (b = true → sh.Turn ⟨c, .req⟩)
  rsp : ∀ h e p, cl.rsp = .serve h e p → ∃ b, Checked b p ∧ (b = true → sh.Turn ⟨c, .rsp⟩)
  getConn : ∀ j ep rps, cl.req = .getConn j ep rps → sh.Turn ⟨c, .req⟩

/-- The same without a turn: both will look at `main_stat` first. -/
structure Idle (cl : Client) : Prop where
  req : ∀ (α : Type) (k : ReqK α) (p : Io α), cl.req = .io k p → Checked false p
  rsp : ∀ h e p, cl.rsp = .serve h e p → Checked false p
  getConn : ∀ j ep rps, cl.req ≠ .getConn j ep rps

section

variable {l l' : Local} {sh sh' : Shared} {c : ClientId} {cl : Client}

/-- Without its turn a coroutine has seen nothing. -/
theorem checked_false {α : Type} {p : Io α} {P : Prop} (h : ∃ b, Checked b p ∧ (b = true → P))
    (hno : ¬ P) : Checked false p := by
  obtain ⟨b, hp, hb⟩ := h
  cases b with
  | false => exact hp
  | true => exact absurd (hb rfl) hno

/-- Where no coroutine of the client has its turn, it is idle. -/
theorem Heeds.idle (h : Heeds sh c cl) (hno : ∀ side, ¬ sh.Turn ⟨c, side⟩) : Idle cl where
  req := fun α k p hreq => checked_false (h.req α k p hreq) (hno .req)
  rsp := fun n e p hrsp => checked_false (h.rsp n e p hrsp) (hno .rsp)
  getConn := fun j ep rps hreq => hno .req (h.getConn j ep rps hreq)

/-- An idle client heeds main_stat whoever has the turn. -/
theorem Idle.heeds (h : Idle cl) (sh : Shared) (c : ClientId) : Heeds sh c cl where
  req := fun α k p hreq => ⟨false, h.req α k p hreq, fun hb => absurd hb (by simp)⟩
  rsp := fun n e p hrsp => ⟨false, h.rsp n e p hrsp, fun hb => absurd hb (by simp)⟩
  getConn := fun j ep rps hreq => absurd hreq (h.getConn j ep rps)

/-- A coroutine that is resumed goes on from its wait, having seen nothing. -/
theorem Idle.resume (h : Idle cl) (side : Side) (ret : Int) : Idle (cl.resume side ret) := by
  cases side with
  | req =>
      show Idle (cl.resumeReq ret)
      unfold Client.resumeReq
      dsimp only
      split
      · exact ⟨fun α k p hreq => absurd hreq (by simp), h.rsp, by simp⟩
      · rename_i k p hreq
        refine ⟨fun α' k' p' hreq' => ?_, h.rsp, by simp⟩
        cases hreq'
        exact (h.req _ k p hreq).resume ret
      · exact ⟨fun α k p hreq => absurd hreq (by simp), h.rsp, by simp⟩
      · exact ⟨fun α k p hreq => absurd hreq (by simp), h.rsp, by simp⟩
      · exact ⟨fun α k p hreq => absurd hreq (by simp), h.rsp, by simp⟩
      · exact ⟨h.req, h.rsp, h.getConn⟩
  | rsp =>
      show Idle (cl.resumeRsp ret)
      unfold Client.resumeRsp
      dsimp only
      split
      · exact ⟨h.req, by simp, h.getConn⟩
      · refine ⟨h.req, fun n e p hrsp => ?_, h.getConn⟩
        have hrsp' : (if ret = 0 then RspPc.loop else RspPc.exit) = .serve n e p := hrsp
        split at hrsp' <;> exact absurd hrsp' (by simp)
      · rename_i n e p hrsp
        refine ⟨h.req, fun n' e' p' hrsp' => ?_, h.getConn⟩
        cases hrsp'
        exact (h.rsp n e p hrsp).resume ret
      · exact ⟨h.req, h.rsp, h.getConn⟩

theorem idle_new (sh : Shared) (conn : Conn) : Idle (World.newClient sh conn) :=
  ⟨fun α k p hreq => absurd hreq (by simp [World.newClient]), by simp [World.newClient],
    by simp [World.newClient]⟩

/-- With a server at hand, no connection is made. -/
theorem gotServer_getConn {j j' : ReqIx} {s : ConnIx} {ep : Endpoint} {rps : List AddrInfo} :
    (l.gotServer j s).cl.req ≠ .getConn j' ep rps := by
  have hgot := l.gotServer_cases j s
  generalize l.gotServer j s = l₂ at hgot ⊢
  cases hgot <;> simp

/-- A connection is only looked for where `main_stat` is not EXITING. -/
theorem reqStep_getConn {ch : Choice} (hs : reqStep l ch = some l') {j : ReqIx} {ep : Endpoint}
    {rps : List AddrInfo} (hreq' : l'.cl.req = .getConn j ep rps) :
    l.sh.mainStat = .running ∧ l'.sh.mainStat = l.sh.mainStat ∧
      l'.sh.callCxt = l.sh.callCxt := by
  have hrunning {j : ReqIx} {rp : AddrInfo} {rps : List AddrInfo}
      (hreq : l.cl.req = .addrs j (rp :: rps)) : l.sh.mainStat = .running := by
    cases hstat : l.sh.mainStat with
    | running => rfl
    | exiting =>
        rw [reqStep, hreq] at hs
        simp only [Local.tryAddr, hstat, if_true] at hs
        rw [← Option.some.inj hs] at hreq'
        exact absurd hreq' (by simp)
  have hcase := reqStep_cases hs
  cases hcase with
  | notPooled hreq hfind => exact ⟨hrunning hreq, rfl, rfl⟩
  | evict hreq hmain hfamily hfind hstat =>
      exact ⟨hrunning hreq, (l.evicted_calm _ _).mainStat, by simp [Local.evicted]⟩
  | reuse hreq hfind hstat => exact absurd hreq' gotServer_getConn
  | newConn hreq hfd =>
      rw [Local.gotNewConn_eq] at hreq'
      exact absurd hreq' gotServer_getConn
  | connected hreq hret =>
      rw [Local.gotNewConn_eq] at hreq'
      exact absurd hreq' gotServer_getConn
  | done hreq =>
      unfold Local.reqDone at hreq'
      dsimp only at hreq'
      split at hreq' <;> exact absurd hreq' (by simp)
  | cleanup hreq => exact absurd hreq' (by simp [Local.reqCleanup, Local.leave])
  | resolved hreq =>
      obtain ⟨rps', hreq''⟩ := (l.dnsResolved_frame _ _ _).2.2
      exact absurd (hreq''.symm.trans hreq') (by simp)
  | noLookup hreq => exact absurd (hreq.symm.trans hreq') (by simp)
  | _ => exact absurd hreq' (by simp)

/-- A step of the request coroutine in its turn. -/
theorem heeds_reqStep {ch : Choice} (hin : InRange l.cl) (hrun : l.sh.callCxt = some ⟨c, .req⟩)
    (h : Heeds l.sh c l.cl) (hs : reqStep l ch = some l') : Heeds l'.sh c l'.cl where
  req := by
    intro α k p hreq'
    rcases (reqStep_cases hs).io_or_quiet hin with ⟨α₀, k₀, p₀, p₁, l₁, hreq, hio, rfl⟩ | hquiet
    · cases hreq'
      obtain ⟨b, hp, hb⟩ := h.req _ _ _ hreq
      obtain ⟨b', hp', hb'⟩ := hio.checked hp fun hb₀ => (hb hb₀).2
      exact ⟨b', hp', fun hb₁ => ⟨(hb' hb₁).2.trans hrun, (hb' hb₁).1⟩⟩
    · exact ⟨false, (hquiet.begins α k p hreq').1.checked false, fun hb => absurd hb (by simp)⟩
  rsp := by
    intro n e p hrsp'
    rw [(reqStep_cases hs).rsp_eq] at hrsp'
    refine ⟨false, checked_false (h.rsp n e p hrsp') fun hturn => ?_, fun hb => absurd hb (by simp)⟩
    exact absurd (hrun.symm.trans hturn.1) (by simp)
  getConn := by
    intro j ep rps hreq'
    obtain ⟨hstat, hsame, hcall⟩ := reqStep_getConn hs hreq'
    exact ⟨hcall.trans hrun, hsame.trans hstat⟩

/-- A step of the response coroutine in its turn. -/
theorem heeds_rspStep (hrun : l.sh.callCxt = some ⟨c, .rsp⟩) (h : Heeds l.sh c l.cl)
    (hs : RspCase l l') : Heeds l'.sh c l'.cl where
  req := by
    intro α k p hreq'
    rw [hs.req_eq] at hreq'
    refine ⟨false, checked_false (h.req α k p hreq') fun hturn => ?_, fun hb => absurd hb (by simp)⟩
    exact absurd (hrun.symm.trans hturn.1) (by simp)
  rsp := by
    intro n e p hrsp'
    have hold (hrsp : l.cl.rsp = .serve n e p) (hstat : l'.sh.mainStat = l.sh.mainStat)
        (hcall : l'.sh.callCxt = l.sh.callCxt) :
        ∃ b, Checked b p ∧ (b = true → l'.sh.Turn ⟨c, .rsp⟩) := by
      obtain ⟨b, hp, hb⟩ := h.rsp n e p hrsp
      exact ⟨b, hp, fun hb' => ⟨hcall.trans (hb hb').1, hstat.trans (hb hb').2⟩⟩
    cases hs with
    | stuck f => exact hold hrsp' rfl rfl
    | io hdead hrsp hio =>
        cases hrsp'
        obtain ⟨b, hp, hb⟩ := h.rsp _ _ _ hrsp
        obtain ⟨b', hp', hb'⟩ := hio.checked hp fun hb₀ => (hb hb₀).2
        exact ⟨b', hp', fun hb₁ => ⟨(hb' hb₁).2.trans hrun, (hb' hb₁).1⟩⟩
    | serve hdead hrsp hhead hn hcnt hkind =>
        cases hrsp'
        exact ⟨false, checked_rules.rspHandler _ _ false, fun hb => absurd hb (by simp)⟩
    | exit hdead hrsp =>
        refine absurd hrsp' ?_
        unfold Local.rspExit
        dsimp only
        split <;> simp [Local.leave]
    | _ => exact absurd hrsp' (by simp [Local.rspPop, Local.park, Client.setWait])
  getConn := by
    intro j ep rps hreq'
    rw [hs.req_eq] at hreq'
    exact absurd (hrun.symm.trans (h.getConn j ep rps hreq').1) (by simp)

-- ============================================================================
-- A step once main_stat is EXITING
-- ============================================================================

/-- A program that has seen nothing makes no system call. -/
theorem IoCase.calm {side : Side} {srv : ConnIx} {α : Type} {p p' : Io α}
    (h : IoCase l side srv p l' p') (hp : Checked false p) :
    l.Calm l' ∧ l'.cl.hist.out = l.cl.hist.out := by
  cases h with
  | unroll body s k => exact ⟨.refl _, rfl⟩
  | stuck o k f => exact ⟨⟨rfl, .refl _⟩, rfl⟩
  | yield r d k hfreed => exact ⟨l.park_calm side _, by cases side <;> rfl⟩
  | act hfreed hact =>
      cases hact with
      | sys r q res hok =>
          have hchecked : false = true := hp.1
          exact absurd hchecked (by simp)
      | close r => exact ⟨l.connClose_calm _, by simp⟩
      | mark a => exact ⟨.refl _, by cases side <;> rfl⟩
      | _ => exact ⟨.refl _, rfl⟩

/-- The request coroutine, when main_stat is EXITING. -/
theorem calm_reqCase (hin : InRange l.cl) (hidle : Idle l.cl) (hs : ReqCase l l') :
    l.Calm l' ∧ l'.cl.hist.out = l.cl.hist.out := by
  rcases hs.io_or_quiet hin with ⟨α, k, p, p', l₁, hreq, hio, rfl⟩ | hquiet
  · exact hio.calm (hidle.req α k p hreq)
  refine ⟨?_, hquiet.out⟩
  cases hs with
  | io hreq hio => exact (hio.calm (hidle.req _ _ _ hreq)).1
  | newConn hreq hfd => exact absurd hreq (hidle.getConn _ _ _)
  | connecting hreq hfd => exact absurd hreq (hidle.getConn _ _ _)
  | answeredBad hreq => exact l.decrefReq_calm _
  | answeredGateway hreq => exact l.reqFailed_calm _ _
  | tunnelDone hreq => exact l.reqFailed_calm _ _
  | forwarded hreq => exact l.forwarded_calm _ _
  | notForwarded hreq hret => exact l.decrefConn_calm _
  | bodyDone hreq => exact (l.decrefConn_calm _).trans ((l.decrefConn _).decrefReq_calm _)
  | evict hreq hmain hfamily hfind hstat => exact l.evicted_calm _ _
  | reuse hreq hfind hstat => exact (l.increfConn_calm _).trans (Local.gotServer_calm _ _ _)
  | @notConnected j i rps hreq =>
      have hdrop : (l.connDel i).Calm ((l.connDel i).decrefConnNull i) :=
        .of_eq (by simp) (by simp)
      exact (l.connDel_calm i).trans hdrop
  | connected hreq hret => exact l.gotNewConn_calm _ _
  | done hreq => exact l.reqDone_calm
  | cleanup hreq => exact l.reqCleanup_calm
  | @resolved j eid res hreq => cases res <;> exact ⟨rfl, .refl _⟩
  | _ => exact ⟨rfl, .refl _⟩

/-- The response coroutine, when main_stat is EXITING. -/
theorem calm_rspCase (hidle : Idle l.cl) (hs : RspCase l l') :
    l.Calm l' ∧ l'.cl.hist.out = l.cl.hist.out := by
  cases hs with
  | io hdead hrsp hio => exact hio.calm (hidle.rsp _ _ _ hrsp)
  | evict hdead hrsp hcnt hstat hfind =>
      exact ⟨(l.evicted_calm _ _).trans (Local.rspPop_calm _ _ _), by simp [Local.rspPop]⟩
  | pop hdead hrsp hcnt hstat => exact ⟨l.rspPop_calm _ _, by simp [Local.rspPop]⟩
  | exit hdead hrsp =>
      refine ⟨l.rspExit_calm, ?_⟩
      unfold Local.rspExit
      dsimp only
      split <;> simp [Local.leave]
  | _ => exact ⟨⟨rfl, .refl _⟩, rfl⟩

end

-- ============================================================================
-- The main loop
-- ============================================================================

/-- Where the main loop is from `proxy_done` on: handlers are only called with an error. -/
def Main.Leaving : Main → Prop
  | .eventWork => True
  | .eventRet => True
  | .next (.done _) => True
  | .callRead ev _ (.done _) => ev.err = true
  | .callWrite ev _ (.done _) => ev.err = true
  | .dnsRead k => k.Leaving
  | .exited => True
  | _ => False

namespace World

variable {w w' : World} {ch : Choice}

/-- Resuming a coroutine moves nothing by itself. -/
theorem asyncResume_calm (w : World) (x : Co) (ret : Int) (m : Main) :
    w.sh.Calm (w.asyncResume x ret m).sh ∧
      ((w.asyncResume x ret m).sh.main = m ∨ (w.asyncResume x ret m).sh.main = w.sh.main) ∧
      (w.asyncResume x ret m).nclients = w.nclients := by
  unfold asyncResume
  split
  · exact ⟨⟨rfl, .refl _⟩, .inr rfl, rfl⟩
  · split
    · exact ⟨⟨rfl, .refl _⟩, .inr rfl, rfl⟩
    · exact ⟨⟨rfl, .refl _⟩, .inl rfl, rfl⟩

theorem connErr_calm (w : World) (o : Option (ClientId × ConnIx)) :
    w.sh.Calm ((o.map w.connErr).getD w).sh ∧ ((o.map w.connErr).getD w).nclients = w.nclients := by
  cases o with
  | none => exact ⟨.refl _, rfl⟩
  | some t =>
      rw [Option.map_some, Option.getD_some]
      unfold connErr
      split
      · exact ⟨⟨rfl, .refl _⟩, rfl⟩
      · split <;> exact ⟨⟨rfl, .refl _⟩, rfl⟩

/-- What a step of the main loop does once `main_stat` is EXITING. -/
structure LeavingStep (w w' : World) : Prop where
  calm : w.sh.Calm w'.sh
  main : w'.sh.main.Leaving
  nclients : w'.nclients = w.nclients

/-- A handler that is called with an error accepts no connection. -/
theorem callHandler_leaving {h : Handler} {ev : EpollEvent} {k : Main} (herr : ev.err = true)
    (hmain : w.sh.main.Leaving) (hk : k.Leaving) : LeavingStep w (w.callHandler h ev k) := by
  cases h with
  | co x =>
      obtain ⟨hcalm, hm, hn⟩ := asyncResume_calm w x (if ev.err then -1 else 0) k
      refine ⟨hcalm, ?_, hn⟩
      show (w.asyncResume x (if ev.err then -1 else 0) k).sh.main.Leaving
      rcases hm with heq | heq
      · rw [heq]
        exact hk
      · rw [heq]
        exact hmain
  | accept sfd =>
      rw [callHandler, if_pos herr]
      exact ⟨⟨rfl, Net.calm_netPullDel _ _⟩, hk, rfl⟩
  | dns => exact ⟨⟨rfl, rfl, fun _ h => h⟩, hk, rfl⟩

/-- From proxy_done on, a step of the main loop is one on its way out. -/
theorem mainStep_leaving (hexit : w.sh.mainStat = .exiting) (hmain : w.sh.main.Leaving)
    (h : w.mainStep ch = some w') : LeavingStep w w' := by
  unfold mainStep at h
  split at h <;> rename_i hpc
  · rw [← Option.some.inj h]
    unfold eventWork
    split
    · split
      · rename_i hrunning
        exact absurd (hexit.symm.trans hrunning) (by simp)
      · exact ⟨⟨rfl, .refl _⟩, trivial, rfl⟩
    · split
      · exact ⟨⟨rfl, .refl _⟩, trivial, rfl⟩
      · obtain ⟨hcalm, hm, hn⟩ := asyncResume_calm w _ _ .eventRet
        refine ⟨hcalm, ?_, hn⟩
        rcases hm with heq | heq
        · rw [heq]
          trivial
        · rw [heq]
          exact hmain
  · rw [← Option.some.inj h]
    exact ⟨⟨rfl, .refl _⟩, trivial, rfl⟩
  · rw [hpc] at hmain
    exact hmain.elim
  · rename_i t
    rw [hpc] at hmain
    cases t with
    | batch evs => exact hmain.elim
    | done ents =>
        rw [← Option.some.inj h]
        cases ents with
        | nil => exact ⟨⟨rfl, .refl _⟩, trivial, rfl⟩
        | cons nh ents =>
            obtain ⟨hcalm, hn⟩ := connErr_calm w nh.err
            exact ⟨⟨hcalm.mainStat, hcalm.net⟩, rfl, hn⟩
  · rename_i ev nh t
    have hmain' := hmain
    rw [hpc] at hmain'
    cases t with
    | batch evs => exact hmain'.elim
    | done ents =>
        split at h
        · rw [← Option.some.inj h]
          exact ⟨⟨rfl, .refl _⟩, hmain', rfl⟩
        · rw [← Option.some.inj h]
          exact callHandler_leaving hmain' hmain hmain'
  · rename_i ev nh t
    have hmain' := hmain
    rw [hpc] at hmain'
    cases t with
    | batch evs => exact hmain'.elim
    | done ents =>
        split at h
        · rw [← Option.some.inj h]
          exact ⟨⟨rfl, .refl _⟩, trivial, rfl⟩
        · rw [← Option.some.inj h]
          exact callHandler_leaving hmain' hmain trivial
  · rw [hpc] at hmain
    exact hmain.elim
  · rename_i k
    rw [hpc] at hmain
    split at h
    · rename_i hsig
      rw [← Option.some.inj h]
      refine ⟨⟨rfl, .refl _⟩, ?_, rfl⟩
      show w.sh.main.Leaving
      rw [hpc]
      exact hmain
    · rw [← Option.some.inj h]
      exact ⟨⟨rfl, .refl _⟩, hmain, rfl⟩
  · exact absurd h (by simp)

/-- Only `proxy_done` writes `main_stat`, and the main loop is on its way out then. -/
theorem mainStep_stat (h : w.mainStep ch = some w') :
    w'.sh.mainStat = w.sh.mainStat ∨ w'.sh.main.Leaving := by
  rcases mainStep_mainStat w h with hsame | rfl
  · exact .inl hsame
  · exact .inr trivial

-- ============================================================================
-- Runs
-- ============================================================================

/-- Every client heeds `main_stat`, and so does the main loop. -/
structure HeedsExit (w : World) : Prop where
  clients : ∀ c cl, w.clients c = some cl → Heeds w.sh c cl
  main : w.sh.mainStat = .exiting → w.sh.main.Leaving

/-- A client none of whose coroutines runs. -/
theorem HeedsExit.idle (h : HeedsExit w) {c : ClientId} {cl : Client} (hcl : w.clients c = some cl)
    (hno : ∀ side, w.sh.callCxt ≠ some ⟨c, side⟩) : Idle cl :=
  (h.clients c cl hcl).idle fun side hturn => hno side hturn.1

theorem dnsDone_sh {eid : EventId} (h : w.dnsDone eid = some w') :
    w'.clients = w.clients ∧ w'.nclients = w.nclients ∧ w'.sh.callCxt = w.sh.callCxt ∧
      w'.sh.main = w.sh.main ∧ w'.sh.mainStat = w.sh.mainStat ∧ w'.sh.net = w.sh.net := by
  unfold dnsDone at h
  split at h
  · rw [← Option.some.inj h]
    exact ⟨rfl, rfl, rfl, rfl, rfl, rfl⟩
  · exact absurd h (by simp)

/-- A client after a step of the main loop: it was idle and still is. -/
theorem mainStep_idle (hw : HeedsExit w) (hrun : w.sh.callCxt = none)
    (h : w.mainStep ch = some w') {c : ClientId} {cl' : Client} (hcl' : w'.clients c = some cl') :
    Idle cl' := by
  have hidle {cl : Client} (hcl : w.clients c = some cl) : Idle cl :=
    hw.idle hcl fun side hside => absurd (hrun.symm.trans hside) (by simp)
  cases mainStep_case hrun h hcl' with
  | same hcl _ => exact hidle hcl
  | co hrun' _ _ _ _ => exact absurd (hrun.symm.trans hrun') (by simp)
  | resume _ hcl _ heq _ =>
      rw [heq]
      exact (hidle hcl).resume _ _
  | err _ _ hcl _ heq =>
      rw [heq]
      obtain ⟨hreq, hrsp, hconn⟩ := hidle hcl
      exact ⟨hreq, hrsp, hconn⟩
  | new _ _ _ _ heq =>
      rw [heq]
      exact idle_new _ _

/-- One step of the proxy, by the coroutine or the main loop that makes it. -/
theorem heedsExit_step (hin : ∀ c cl, w.clients c = some cl → InRange cl) (hw : HeedsExit w)
    (h : w.step ch = some w') : HeedsExit w' := by
  rcases step_cases h with ⟨eid, hd⟩ | ⟨hrun, hm⟩ | ⟨⟨c₀, side⟩, cl, l', hrun, hcl, hl', rfl⟩
  · obtain ⟨hclients, -, hcall, hmain, hstat, -⟩ := dnsDone_sh hd
    refine ⟨fun c cl hcl => ?_, fun hexit => ?_⟩
    · rw [hclients] at hcl
      obtain ⟨hreq, hrsp, hconn⟩ := hw.clients c cl hcl
      have hturn (x : Co) : w.sh.Turn x ↔ w'.sh.Turn x := by
        rw [Shared.Turn, Shared.Turn, hcall, hstat]
      refine ⟨fun α k p hp => ?_, fun n e p hp => ?_, fun j ep rps hp => ?_⟩
      · obtain ⟨b, hchecked, hb⟩ := hreq α k p hp
        exact ⟨b, hchecked, fun hb' => (hturn _).mp (hb hb')⟩
      · obtain ⟨b, hchecked, hb⟩ := hrsp n e p hp
        exact ⟨b, hchecked, fun hb' => (hturn _).mp (hb hb')⟩
      · exact (hturn _).mp (hconn j ep rps hp)
    · rw [hmain]
      exact hw.main (hstat ▸ hexit)
  · refine ⟨fun c cl' hcl' => (mainStep_idle hw hrun hm hcl').heeds _ _, fun hexit => ?_⟩
    rcases mainStep_stat hm with hsame | hleaving
    · have hexit' := hsame.symm.trans hexit
      exact (mainStep_leaving hexit' (hw.main hexit') hm).main
    · exact hleaving
  · refine ⟨fun c cl' hcl' => ?_, fun hexit => ?_⟩
    · rcases setClient_cases hcl' with ⟨rfl, rfl⟩ | ⟨hne, hold⟩
      · cases side with
        | req => exact heeds_reqStep (hin _ _ hcl) hrun (hw.clients _ _ hcl) hl'
        | rsp => exact heeds_rspStep hrun (hw.clients _ _ hcl) (rspStep_cases hl')
      · refine (hw.idle hold fun side' hside => ?_).heeds _ _
        have heq := hrun.symm.trans hside
        simp only [Option.some.injEq, Co.mk.injEq] at heq
        exact hne heq.1.symm
    · have hcalls : w.sh.Calls l'.sh := coStep_calls hl'
      show l'.sh.main.Leaving
      rw [hcalls.main]
      exact hw.main (hcalls.mainStat.symm.trans hexit)

/-- In every run each client heeds main_stat, and the main loop leaves once it is EXITING. -/
theorem heedsExit {ok : World → Choice → Prop} (h : Run step ok init w) : HeedsExit w := by
  refine h.invariant_of HeedsExit (J := fun w => ∀ c cl, w.clients c = some cl → InRange cl)
    (fun w hr c cl hcl => inRange hr hcl) ?_ fun w w' ch hin hw _ hs => heedsExit_step hin hw hs
  exact ⟨fun c cl hcl => absurd hcl (by simp [init]), fun hexit => absurd hexit (by simp [init])⟩

/-- The number of the next client is not in use. -/
theorem nclients_fresh {ok : World → Choice → Prop} (h : Run step ok init w) {c : ClientId}
    (hc : w.nclients ≤ c) : w.clients c = none := by
  have hfresh : ∀ c, w.nclients ≤ c → (w.clients c).map Client.peer = none :=
    notify_invariant (I := fun s => ∀ c, s.nclients ≤ c → s.peers c = none)
      (fun _ _ => rfl) (fun _ _ _ hI _ _ hs => Notify.fresh_step hs hI) h
  exact Option.map_eq_none_iff.mp (hfresh c hc)

/-- From `w` to `w'` nothing was received, sent, opened or accepted, with `main_stat` EXITING. -/
structure Silent (w w' : World) : Prop where
  mainStat : w'.sh.mainStat = .exiting
  net : w.sh.net.Calm w'.sh.net
  nclients : w'.nclients = w.nclients
  out : ∀ c cl', w'.clients c = some cl' → ∃ cl, w.clients c = some cl ∧
    cl'.hist.out = cl.hist.out

theorem Silent.refl (hexit : w.sh.mainStat = .exiting) : Silent w w :=
  ⟨hexit, .refl _, rfl, fun _ cl hcl => ⟨cl, hcl, rfl⟩⟩

theorem Silent.trans {w₁ : World} (h₁ : Silent w w₁) (h₂ : Silent w₁ w') : Silent w w' := by
  refine ⟨h₂.mainStat, h₁.net.trans h₂.net, h₂.nclients.trans h₁.nclients, fun c cl' hcl' => ?_⟩
  obtain ⟨cl₁, hcl₁, hout₁⟩ := h₂.out c cl' hcl'
  obtain ⟨cl, hcl, hout⟩ := h₁.out c cl₁ hcl₁
  exact ⟨cl, hcl, hout₁.trans hout⟩

/-- A step of the main loop, once main_stat is EXITING. -/
theorem mainStep_silent (hfresh : w.clients w.nclients = none ∧ w'.clients w'.nclients = none)
    (hw : HeedsExit w) (hexit : w.sh.mainStat = .exiting) (hrun : w.sh.callCxt = none)
    (h : w.mainStep ch = some w') : Silent w w' := by
  obtain ⟨hcalm, -, hn⟩ := mainStep_leaving hexit (hw.main hexit) h
  refine ⟨hcalm.mainStat.trans hexit, hcalm.net, hn, fun c cl' hcl' => ?_⟩
  cases mainStep_case hrun h hcl' with
  | same hcl _ => exact ⟨cl', hcl, rfl⟩
  | co hrun' _ _ _ _ => exact absurd (hrun.symm.trans hrun') (by simp)
  | @resume side cl ret _ _ hcl _ heq _ =>
      refine ⟨cl, hcl, ?_⟩
      rw [heq]
      cases side with
      | req =>
          show (cl.resumeReq ret).hist.out = cl.hist.out
          unfold Client.resumeReq
          dsimp only
          split <;> rfl
      | rsp =>
          show (cl.resumeRsp ret).hist.out = cl.hist.out
          unfold Client.resumeRsp
          dsimp only
          split <;> rfl
  | @err cl _ _ _ hcl _ heq => exact ⟨cl, hcl, heq ▸ rfl⟩
  | new hc _ _ _ _ =>
      -- the number of clients is the same, so none has come
      rw [hc, ← hn] at hcl'
      exact absurd (hcl'.symm.trans hfresh.2) (by simp)

/-- Any step, once main_stat is EXITING. -/
theorem step_silent (hin : ∀ c cl, w.clients c = some cl → InRange cl)
    (hfresh : w.clients w.nclients = none ∧ w'.clients w'.nclients = none)
    (hw : HeedsExit w) (hexit : w.sh.mainStat = .exiting) (h : w.step ch = some w') :
    Silent w w' := by
  rcases step_cases h with ⟨eid, hd⟩ | ⟨hrun, hm⟩ | ⟨⟨c₀, side⟩, cl, l', hrun, hcl, hl', rfl⟩
  · obtain ⟨hclients, hn, -, -, hstat, hnet⟩ := dnsDone_sh hd
    refine ⟨hstat.trans hexit, hnet ▸ .refl _, hn, fun c cl' hcl' => ?_⟩
    exact ⟨cl', hclients ▸ hcl', rfl⟩
  · exact mainStep_silent hfresh hw hexit hrun hm
  · have hidle : Idle cl := (hw.clients _ _ hcl).idle fun _ hturn =>
      absurd (hexit.symm.trans hturn.2) (by simp)
    have hstep : Shared.Calm w.sh l'.sh ∧ l'.cl.hist.out = cl.hist.out := by
      cases side with
      | req => exact calm_reqCase (hin _ _ hcl) hidle (reqStep_cases hl')
      | rsp => exact calm_rspCase hidle (rspStep_cases hl')
    obtain ⟨hcalm, hout⟩ := hstep
    refine ⟨hcalm.mainStat.trans hexit, hcalm.net, rfl, fun c cl' hcl' => ?_⟩
    rcases setClient_cases hcl' with ⟨rfl, rfl⟩ | ⟨_, hold⟩
    · exact ⟨cl, hcl, hout⟩
    · exact ⟨cl', hold, rfl⟩

end World

/-- Once `main_stat` is EXITING, in whatever order the coroutines still run: nothing is received
    from or sent to any connection, no descriptor is opened, no client is accepted, no client is
    sent another byte, the main loop does not go back to `epoll_wait`, and `main_stat` stays. -/
theorem exiting_silent {w w' : World} (h : w.Reachable) (hexit : w.sh.mainStat = .exiting)
    (hrun : Run World.step (fun _ _ => True) w w') :
    w'.sh.mainStat = .exiting ∧ w'.sh.main ≠ .epollWait ∧
      w'.sh.net.acts.filter Act.isIo = w.sh.net.acts.filter Act.isIo ∧
      (∀ fd, w.sh.net.fds fd = none → w'.sh.net.fds fd = none) ∧
      w'.nclients = w.nclients ∧
      ∀ c cl', w'.clients c = some cl' → ∃ cl, w.clients c = some cl ∧
        cl'.hist.out = cl.hist.out := by
  have hsilent : World.Silent w w' := by
    induction hrun with
    | start => exact .refl hexit
    | @step w₁ w₂ ch hr _ hs ih =>
        have hw₁ : w₁.Reachable := Run.append h hr
        have hw₂ : w₂.Reachable := .step hw₁ trivial hs
        refine ih.trans (World.step_silent (fun c cl hcl => World.inRange hw₁ hcl) ?_
          (World.heedsExit hw₁) ih.mainStat hs)
        exact ⟨World.nclients_fresh hw₁ le_rfl, World.nclients_fresh hw₂ le_rfl⟩
  have hleaving := (World.heedsExit (Run.append h hrun)).main hsilent.mainStat
  refine ⟨hsilent.mainStat, fun hmain => ?_, hsilent.net.acts, hsilent.net.fds, hsilent.nclients,
    hsilent.out⟩
  rw [hmain] at hleaving
  exact hleaving

/-- The process is told to exit while a request waits for its answer; what has been sent until
    then is all that is ever sent. -/
theorem exiting_silent_one : ∃ w : World, w.Reachable ∧ w.sh.mainStat = .exiting ∧
    w.nclients = 1 ∧ w.sh.net.acts.filter Act.isIo ≠ [] ∧
    ∀ w', Run World.step (fun _ _ => True) w w' →
      w'.sh.net.acts.filter Act.isIo = w.sh.net.acts.filter Act.isIo ∧ w'.nclients = 1 := by
  have hd : (World.driveInit (fun _ _ => true) 300 (oneRequest ++ [.exit])).any (fun w =>
      decide (w.sh.mainStat = .exiting) && decide (w.nclients = 1) &&
        !(w.sh.net.acts.filter Act.isIo).isEmpty) = true := by
    decide +kernel
  obtain ⟨w, hw, hp⟩ := World.reachable_of_drive hd
  simp only [Bool.and_eq_true, decide_eq_true_eq, Bool.not_eq_true',
    List.isEmpty_eq_false_iff] at hp
  obtain ⟨⟨hexit, hn⟩, hacts⟩ := hp
  refine ⟨w, hw, hexit, hn, hacts, fun w' hrun => ?_⟩
  obtain ⟨-, -, hsame, -, hsame', -⟩ := exiting_silent hw hexit hrun
  exact ⟨hsame, hsame'.trans hn⟩

end HttpProxy
