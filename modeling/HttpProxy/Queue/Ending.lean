/-
  HttpProxy.Queue.Ending

  The process exits once `main_stat` is EXITING: no run goes on for ever, and one that
  cannot go on has reached the end of `proxy_done`, or undefined behaviour
  (`exiting_ends`).

  What gets smaller is, in this order: the ranks of the clients, the load of the main
  loop, and the rest of the program that runs.  A coroutine only posts an event when it
  gets further, so the load is allowed to grow then.
-/

import HttpProxy.Queue.Rank

namespace HttpProxy

open Lib

namespace World

variable {w w' : World} {ch : Choice}

-- ============================================================================
-- No run goes on for ever
-- ============================================================================

/-- A state of a run once `main_stat` is EXITING. -/
structure Leaves (w : World) : Prop where
  reachable : w.Reachable
  exiting : w.sh.mainStat = .exiting

/-- `w'` comes after `w`. -/
def Next (w' w : World) : Prop := ∃ ch, w.step ch = some w'

theorem Leaves.silent (hw : Leaves w) (h : w.step ch = some w') : Silent w w' := by
  have hw' : w'.Reachable := .step hw.reachable trivial h
  apply step_silent (fun c cl hcl => inRange hw.reachable hcl) _ (heedsExit hw.reachable)
    hw.exiting h
  exact ⟨nclients_fresh hw.reachable (Nat.le_refl _), nclients_fresh hw' (Nat.le_refl _)⟩

theorem Leaves.step (hw : Leaves w) (h : w.step ch = some w') : Leaves w' :=
  ⟨.step hw.reachable trivial h, (hw.silent h).mainStat⟩

theorem Leaves.idle (hw : Leaves w) {c : ClientId} {cl : Client} (hcl : w.clients c = some cl) :
    Idle cl := by
  apply ((heedsExit hw.reachable).clients c cl hcl).idle
  intro side hturn
  exact absurd (hw.exiting.symm.trans hturn.2) (by simp)

theorem Leaves.lt (hw : Leaves w) {c : ClientId} {cl : Client} (hcl : w.clients c = some cl) :
    c < w.nclients := by
  by_cases hc : c < w.nclients
  · exact hc
  · have hnone := nclients_fresh hw.reachable (Nat.le_of_not_lt hc)
    exact absurd (hnone.symm.trans hcl) (by simp)

/-- Undefined behaviour ends the run. -/
theorem acc_of_fault (h : w.sh.fault.isSome = true) : Acc Next w := by
  constructor
  rintro w' ⟨ch, hs⟩
  unfold World.step at hs
  rw [if_pos h] at hs
  exact absurd hs (by simp)

/-- `w` is behind the point where the ranks sum up to `n` and the load is `m`. -/
def Below (n m : Nat) (w : World) : Prop := w.rank < n ∨ w.rank ≤ n ∧ w.sh.load < m

section

variable {n m : Nat} (hbelow : ∀ w', Leaves w' → Below n m w' → Acc Next w')

include hbelow

theorem acc_dnsDone (hw' : Leaves w') (hn : w.rank ≤ n) (hm : w.sh.load ≤ m) {eid : EventId}
    (h : w.dnsDone eid = some w') : Acc Next w' := by
  obtain ⟨hclients, hnclients, -⟩ := dnsDone_sh h
  have hrank : w'.rank = w.rank := by rw [rank, rank, hclients, hnclients]
  have hload := dnsDone_load h
  exact hbelow w' hw' (.inr ⟨by omega, by omega⟩)

/-- No coroutine runs. -/
theorem acc_idle (hw : Leaves w) (hrun : w.sh.callCxt = none) (hn : w.rank ≤ n)
    (hm : w.sh.load ≤ m) : Acc Next w := by
  constructor
  rintro w' ⟨ch, hs⟩
  have hw' := hw.step hs
  rcases step_cases hs with ⟨eid, hd⟩ | ⟨-, hmain⟩ | ⟨x, cl, l', hrun', -, -, -⟩
  · exact acc_dnsDone hbelow hw' hn hm hd
  · have hleaving := (heedsExit hw.reachable).main hw.exiting
    have hrank := mainStep_rank hw.exiting hleaving hrun hmain
    rcases mainStep_load hw.exiting hleaving hmain with hfault | hload
    · exact acc_of_fault hfault
    · exact hbelow w' hw' (.inr ⟨by omega, by omega⟩)
  · exact absurd (hrun.symm.trans hrun') (by simp)

/-- The coroutine of client `c` on `side` runs; what is left to show is that the run ends after a
    step of the program it is in, if it still runs then. -/
theorem acc_running {c : ClientId} {side : Side} {cl : Client} (hw : Leaves w)
    (hrun : w.sh.callCxt = some ⟨c, side⟩) (hcl : w.clients c = some cl) (hn : w.rank ≤ n)
    (hm : w.sh.load ≤ m)
    (hgo : ∀ (w' : World) (cl' : Client) (α : Type) (srv : ConnIx) (p p' : Io α) (l₁ : Local),
      Leaves w' → w'.sh.callCxt = some ⟨c, side⟩ → w'.clients c = some cl' → w'.rank ≤ n →
      w'.sh.load ≤ m → InProg cl side srv p → IoCase ⟨c, cl, w.sh⟩ side srv p l₁ p' →
      InProg cl' side srv p' → w'.sh = l₁.sh → cl'.mem = l₁.cl.mem → Acc Next w') :
    Acc Next w := by
  constructor
  rintro w' ⟨ch, hs⟩
  have hw' := hw.step hs
  rcases step_cases hs with ⟨eid, hd⟩ | ⟨hrun', -⟩ | ⟨x, cl₀, l', hrun', hcl₀, hl', heq⟩
  · exact acc_dnsDone hbelow hw' hn hm hd
  · exact absurd (hrun.symm.trans hrun') (by simp)
  obtain rfl := Option.some.inj (hrun.symm.trans hrun')
  obtain rfl := Option.some.inj (hcl.symm.trans hcl₀)
  have hsh' : w'.sh = l'.sh := by rw [heq]
  have hcl' : w'.clients c = some l'.cl := by
    rw [heq]
    exact Function.update_self _ _ _
  have hrank : w'.rank + cl.rank = w.rank + l'.cl.rank := by
    rw [heq]
    exact rank_setClient (hw.lt hcl) hcl l'.cl
  rcases coStep_rank hw.exiting (hw.idle hcl) hl' with
    hfault | hlt | ⟨α, srv, p, p', l₁, hp, hio, hp', hsh, hmem, hsame⟩
  · exact acc_of_fault (hsh' ▸ hfault)
  · dsimp only at hlt
    exact hbelow w' hw' (.inl (by omega))
  · dsimp only at hsame
    have hn' : w'.rank ≤ n := by omega
    have hm' : w'.sh.load ≤ m := by
      rw [hsh', hsh, hio.load]
      exact hm
    have hcall := hio.callCxt
    rw [← hsh, ← hsh'] at hcall
    rcases hcall with hgoes | hnone
    · exact hgo w' l'.cl α srv p p' l₁ hw' (hgoes.trans hrun) hcl' hn' hm' hp hio hp'
        (hsh'.trans hsh) hmem
    · exact acc_idle hbelow hw' hnone hn' hm'

/-- The coroutine that runs is in a program that halts. -/
theorem acc_prog {α : Type} {srv : ConnIx} {p : Io α} {g : ConnIx → Nat} {c : ClientId}
    {side : Side} {cl : Client} (hends : p.Halts (exitAnswers (Role.ix srv)) (fun _ _ => True) g)
    (hw : Leaves w) (hrun : w.sh.callCxt = some ⟨c, side⟩) (hcl : w.clients c = some cl)
    (hn : w.rank ≤ n) (hm : w.sh.load ≤ m) (hprog : InProg cl side srv p)
    (hg : cl.mem.unread = g) : Acc Next w := by
  induction hends generalizing w cl with
  | @ret a g _ =>
      apply acc_running hbelow hw hrun hcl hn hm
      intro w' cl' α₀ srv₀ p₀ p' l₁ _ _ _ _ _ hprog₀ hio
      obtain ⟨rfl, rfl, hp⟩ := hprog.unique hprog₀
      obtain rfl := eq_of_heq hp
      cases hio
  | @call o k g _ ih =>
      apply acc_running hbelow hw hrun hcl hn hm
      intro w' cl' α₀ srv₀ p₀ p' l₁ hw' hrun' hcl' hn' hm' hprog₀ hio hprog' hsh hmem
      obtain ⟨rfl, rfl, hp⟩ := hprog.unique hprog₀
      obtain rfl := eq_of_heq hp
      cases hio with
      | stuck o k f =>
          apply acc_of_fault
          rw [hsh]
          rfl
      | yield r d k hfreed =>
          rw [hsh] at hrun'
          cases side <;> exact absurd hrun' (by simp [Local.park])
      | act hfreed hact =>
          have hsys : ∀ r q, o ≠ .sys r q := by
            rintro r q rfl
            have hchecked : Checked false _ := (hw.idle hcl).checked hprog
            exact absurd hchecked.1 (by simp [checkedSpec])
          apply ih _ _ (hg ▸ hact.answers hw.exiting hsys) hw' hrun' hcl' hn' hm' hprog'
          rw [hmem]
  | iter _ ih =>
      apply acc_running hbelow hw hrun hcl hn hm
      intro w' cl' α₀ srv₀ p₀ p' l₁ hw' hrun' hcl' hn' hm' hprog₀ hio hprog' hsh hmem
      obtain ⟨rfl, rfl, hp⟩ := hprog.unique hprog₀
      obtain rfl := eq_of_heq hp
      cases hio with
      | unroll body s k =>
          apply ih hw' hrun' hcl' hn' hm' hprog'
          rw [hmem]
          exact hg

end

/-- The run ends from every state where ranks and load are no more than `n` and `m`. -/
theorem acc_of_le {n m : Nat} (hbelow : ∀ w', Leaves w' → Below n m w' → Acc Next w')
    (hw : Leaves w) (hn : w.rank ≤ n) (hm : w.sh.load ≤ m) : Acc Next w := by
  cases hrun : w.sh.callCxt with
  | none => exact acc_idle hbelow hw hrun hn hm
  | some x =>
      cases hcl : w.clients x.client with
      | none =>
          constructor
          rintro w' ⟨ch, hs⟩
          rcases step_cases hs with ⟨eid, hd⟩ | ⟨hrun', -⟩ | ⟨x', cl, l', hrun', hcl', -, -⟩
          · exact acc_dnsDone hbelow (hw.step hs) hn hm hd
          · exact absurd (hrun.symm.trans hrun') (by simp)
          · obtain rfl := Option.some.inj (hrun.symm.trans hrun')
            exact absurd (hcl.symm.trans hcl') (by simp)
      | some cl =>
          apply acc_running hbelow hw hrun hcl hn hm
          intro w' cl' α srv p p' l₁ hw' hrun' hcl' hn' hm' _ _ hprog' _ _
          have hbounded := (ending hw'.reachable hcl').bounded hprog' (Role.ix srv)
          exact acc_prog hbelow (hbounded.halts _) hw' hrun' hcl' hn' hm' hprog' rfl

theorem Leaves.acc (hw : Leaves w) : Acc Next w := by
  have hall : ∀ n m w, Leaves w → w.rank ≤ n → w.sh.load ≤ m → Acc Next w := by
    intro n
    induction n using Nat.strongRecOn with
    | ind n ihn =>
        intro m
        induction m using Nat.strongRecOn with
        | ind m ihm =>
            intro w hw hn hm
            apply acc_of_le _ hw hn hm
            rintro w' hw' (hlt | ⟨hle, hlt⟩)
            · exact ihn w'.rank hlt w'.sh.load w' hw' (Nat.le_refl _) (Nat.le_refl _)
            · exact ihm w'.sh.load hlt w' hw' hle (Nat.le_refl _)
  exact hall w.rank w.sh.load w hw (Nat.le_refl _) (Nat.le_refl _)

-- ============================================================================
-- A run only stops at its end
-- ============================================================================

end World

/-- The request coroutine is at one of its waits, or has returned. -/
def ReqPc.rests : ReqPc → Bool
  | .start => true
  | .dns _ _ => true
  | .connect _ _ _ => true
  | .final => true
  | .finished => true
  | _ => false

/-- The response coroutine is at one of its waits, or has returned. -/
def RspPc.rests : RspPc → Bool
  | .start => true
  | .empty => true
  | .finished => true
  | _ => false

def Client.rests (cl : Client) : Side → Bool
  | .req => cl.req.rests
  | .rsp => cl.rsp.rests

section

variable {l l' : Local} {ch : Choice}

theorem resume_rests {cl : Client} {side : Side} (h : cl.isFinished side = false) (ret : Int) :
    (cl.resume side ret).rests side = false := by
  cases side with
  | req =>
      show (cl.resumeReq ret).req.rests = false
      cases hreq : cl.req <;> simp [Client.resumeReq, hreq, ReqPc.rests]
      simp [Client.isFinished, hreq] at h
  | rsp =>
      show (cl.resumeRsp ret).rsp.rests = false
      cases hrsp : cl.rsp with
      | finished => simp [Client.isFinished, hrsp] at h
      | empty =>
          rw [Client.resumeRsp, hrsp]
          dsimp only
          split <;> rfl
      | _ => simp [Client.resumeRsp, hrsp, RspPc.rests]

/-- A coroutine that comes to a wait, or returns, gives up control. -/
theorem coStep_rests {side : Side} (hrest : l.cl.rests side = false)
    (hs : coStep side l ch = some l') : l'.sh.callCxt = none ∨ l'.cl.rests side = false := by
  cases side with
  | req =>
      have hgot (l : Local) (j : ReqIx) (s : ConnIx) : (l.gotServer j s).cl.req.rests = false := by
        have hgot := l.gotServer_cases j s
        generalize l.gotServer j s = l₂ at hgot ⊢
        cases hgot <;> rfl
      cases reqStep_cases hs with
      | lookup hreq => exact .inl rfl
      | noLookup hreq => exact .inr hrest
      | connecting hreq hfd => exact .inl rfl
      | reuse hreq hfind hstat => exact .inr (hgot _ _ _)
      | newConn hreq hfd => exact .inr (hgot _ _ _)
      | connected hreq hret => exact .inr (hgot _ _ _)
      | cleanup hreq => exact .inl rfl
      | @resolved j eid res hreq =>
          obtain ⟨rps, hreq'⟩ := (l.dnsResolved_frame j eid res).2.2
          exact .inr (by simp [Client.rests, hreq', ReqPc.rests])
      | done hreq =>
          unfold Local.reqDone
          dsimp only
          split
          · exact .inr rfl
          · exact .inl rfl
      | _ => exact .inr (by simp [Client.rests, ReqPc.rests])
  | rsp =>
      cases rspStep_cases hs with
      | stuck f => exact .inr hrest
      | sleep hdead hrsp hhead => exact .inl rfl
      | exit hdead hrsp => exact .inl rfl
      | _ => exact .inr (by simp [Client.rests, Local.rspPop, RspPc.rests])

/-- An operation has some answer: a system call may fail. -/
theorem ioCall_enabled (l : Local) (side : Side) (srv : ConnIx) {α : Type} (o : IoOp)
    (k : o.Res → Io α) :
    ∃ ch, (∀ eid, ch ≠ .dnsDone eid) ∧ (l.ioStep side srv ch (.call o k)).isSome = true := by
  by_cases hfreed : l.usesFreed srv o = true
  · exact ⟨.tau, by simp, by simp [Local.ioStep, hfreed]⟩
  · cases o with
    | sys r q =>
        refine ⟨.sys .err, by simp, ?_⟩
        have hok : sysOk l.sh.net (l.cl.mem.conns (r.ix srv)).fd q .err = true := by
          cases q <;> rfl
        simp [Local.ioStep, hfreed, Local.ioOp, hok]
    | _ => exact ⟨.tau, by simp, by simp [Local.ioStep, hfreed, Local.ioOp]⟩

/-- A coroutine that is not at a wait can always make a step. -/
theorem coStep_enabled {side : Side} (hrest : l.cl.rests side = false) :
    ∃ ch, (∀ eid, ch ≠ .dnsDone eid) ∧ (coStep side l ch).isSome = true := by
  cases side with
  | req =>
      have hrest' : l.cl.req.rests = false := hrest
      show ∃ ch, (∀ eid, ch ≠ .dnsDone eid) ∧ (reqStep l ch).isSome = true
      cases hreq : l.cl.req with
      | io k p =>
          cases p with
          | ret a => exact ⟨.tau, by simp, by simp [reqStep, hreq]⟩
          | iter body s k' => exact ⟨.tau, by simp, by simp [reqStep, hreq, Local.ioStep]⟩
          | call o k' =>
              obtain ⟨ch, hch, hio⟩ := ioCall_enabled l .req k.srv o k'
              exact ⟨ch, hch, by simpa [reqStep, hreq] using hio⟩
      | resolve j =>
          refine ⟨.lookup false, by simp, ?_⟩
          simp only [reqStep, hreq, Local.dnsLookup]
          split <;> rfl
      | resolved j eid => exact ⟨.addrs none, by simp, by simp [reqStep, hreq]⟩
      | getConn j ep rps => exact ⟨.connect .fail, by simp, by simp [reqStep, hreq, Local.getConn]⟩
      | loop =>
          refine ⟨.tau, by simp, ?_⟩
          simp only [reqStep, hreq]
          split <;> rfl
      | addrs j rps => exact ⟨.tau, by simp, by simp [reqStep, hreq]⟩
      | connected j i rps ret => exact ⟨.tau, by simp, by simp [reqStep, hreq]⟩
      | done => exact ⟨.tau, by simp, by simp [reqStep, hreq]⟩
      | cleanup => exact ⟨.tau, by simp, by simp [reqStep, hreq]⟩
      | _ => simp [hreq, ReqPc.rests] at hrest'
  | rsp =>
      have hrest' : l.cl.rsp.rests = false := hrest
      show ∃ ch, (∀ eid, ch ≠ .dnsDone eid) ∧ (rspStep l ch).isSome = true
      by_cases hdead : l.cxtDead = true
      · exact ⟨.tau, by simp, by simp [rspStep, hdead]⟩
      cases hrsp : l.cl.rsp with
      | serve h e p =>
          cases p with
          | ret a => exact ⟨.tau, by simp, by simp [rspStep, hdead, hrsp]⟩
          | iter body s k => exact ⟨.tau, by simp, by simp [rspStep, hdead, hrsp, Local.ioStep]⟩
          | call o k =>
              obtain ⟨ch, hch, hio⟩ := ioCall_enabled l .rsp e.server o k
              exact ⟨ch, hch, by simpa [rspStep, hdead, hrsp] using hio⟩
      | loop => exact ⟨.tau, by simp, by simp [rspStep, hdead, hrsp]⟩
      | exit => exact ⟨.tau, by simp, by simp [rspStep, hdead, hrsp]⟩
      | _ => simp [hrsp, RspPc.rests] at hrest'

end

/-- The main loop only resumes coroutines of clients. -/
theorem running_peer {s s' : Notify.State} (hs : Notify.Step s s')
    (hI : ∀ x, s.hub.running = some x → ∃ p, s.peers x.client = some p) {x : Co}
    (hx : s'.hub.running = some x) : ∃ p, s'.peers x.client = some p := by
  cases hs with
  | @req c p p' h' hrun hp hr =>
      rcases hr.running with hsame | hnone
      · obtain rfl := Option.some.inj ((hx.symm.trans hsame).trans hrun)
        exact ⟨p', Notify.setPeer_self s c p'⟩
      · exact absurd (hnone.symm.trans hx) (by simp)
  | @rsp c p p' h' hrun hp hr =>
      rcases hr.running with hsame | hnone
      · obtain rfl := Option.some.inj ((hx.symm.trans hsame).trans hrun)
        exact ⟨p', Notify.setPeer_self s c p'⟩
      · exact absurd (hnone.symm.trans hx) (by simp)
  | wakeEvent _ _ _ _ _ _ =>
      obtain rfl := Option.some.inj hx
      exact ⟨_, Notify.setPeer_self s _ _⟩
  | wakeIo _ _ _ _ _ _ =>
      obtain rfl := Option.some.inj hx
      exact ⟨_, Notify.setPeer_self s _ _⟩
  | main _ => exact hI x hx
  | dnsDone _ => exact hI x hx
  | noHandler hrun _ _ _ => exact absurd (hrun.symm.trans hx) (by simp)
  | eventRet hrun _ => exact absurd (hrun.symm.trans hx) (by simp)
  | take hrun _ _ _ _ _ => exact absurd (hrun.symm.trans hx) (by simp)
  | takeAll hrun _ _ => exact absurd (hrun.symm.trans hx) (by simp)
  | accept hrun _ _ _ => exact absurd (hrun.symm.trans hx) (by simp)
  | dnsRead hrun _ _ => exact absurd (hrun.symm.trans hx) (by simp)
  | exit hrun _ _ => exact absurd (hrun.symm.trans hx) (by simp)

namespace World

variable {w w' : World} {ch : Choice}

/-- The coroutine that runs is one of a client. -/
theorem running_client {ok : World → Choice → Prop} (h : Run step ok init w) {x : Co}
    (hrun : w.sh.callCxt = some x) : ∃ cl, w.clients x.client = some cl := by
  have hpeer : ∀ x, w.notify.hub.running = some x → ∃ p, w.notify.peers x.client = some p := by
    refine notify_invariant (I := fun s => ∀ x, s.hub.running = some x →
      ∃ p, s.peers x.client = some p) ?_ ?_ h
    · intro x hx
      exact absurd hx (by simp [init, notify, Shared.hub])
    · intro w w' ch hI _ _ hs x hx
      generalize w.notify = s at hI hs
      generalize w'.notify = s' at hs hx ⊢
      exact running_peer hs hI hx
  obtain ⟨p, hp⟩ := hpeer x hrun
  exact ⟨_, (Option.map_eq_some_iff.mp hp).choose_spec.1⟩

/-- The coroutine that runs is not at a wait. -/
theorem running_rests {ok : World → Choice → Prop} (h : Run step ok init w) :
    ∀ c cl side, w.clients c = some cl → w.sh.callCxt = some ⟨c, side⟩ →
      cl.rests side = false := by
  induction h with
  | start => exact fun c cl side hcl => absurd hcl (by simp [init])
  | @step w w' ch hr _ hs ih =>
      intro c cl' side hcl' hrun'
      cases client_cases hs hcl' with
      | same hcl hsame => exact ih c cl' side hcl (hsame side hrun')
      | @co side₀ cl l' hrun hcl hl' heq hsh =>
          have hrest := ih c cl side₀ hcl hrun
          have hrunning : l'.sh.callCxt = some ⟨c, side⟩ := hsh ▸ hrun'
          rcases coStep_callCxt hl' with hsame | hnone
          · have hside := (hrunning.symm.trans hsame).trans hrun
            cases hside
            rcases coStep_rests hrest hl' with hnone | hrest'
            · exact absurd (hnone.symm.trans hrunning) (by simp)
            · rw [heq]
              exact hrest'
          · exact absurd (hnone.symm.trans hrunning) (by simp)
      | @resume side₀ cl ret m _ hcl hfin heq hsh =>
          rw [hsh] at hrun'
          cases hrun'
          rw [heq]
          exact resume_rests hfin ret
      | err _ hnone _ _ _ => exact absurd (hnone.symm.trans hrun') (by simp)
      | new _ _ hnone _ _ => exact absurd (hnone.symm.trans hrun') (by simp)

/-- The main loop can always make a step, up to the end of `proxy_done`. -/
theorem mainStep_enabled (hleaving : w.sh.main.Leaving) (h : w.mainStep .tau = none) :
    w.sh.main = .exited := by
  unfold mainStep at h
  split at h <;> rename_i hpc
  · exact absurd h (by simp)
  · exact absurd h (by simp)
  · rw [hpc] at hleaving
    exact hleaving.elim
  · exact absurd h (by simp)
  · split at h <;> exact absurd h (by simp)
  · split at h <;> exact absurd h (by simp)
  · rw [hpc] at hleaving
    exact hleaving.elim
  · split at h <;> exact absurd h (by simp)
  · exact hpc

/-- Once `main_stat` is EXITING, a run stops at the end of `proxy_done`, or at undefined
    behaviour. -/
theorem stops_exited (hw : Leaves w) (hstop : ∀ ch, w.step ch = none) :
    w.sh.fault.isSome = true ∨ w.sh.main = .exited ∧ w.sh.callCxt = none := by
  by_cases hfault : w.sh.fault.isSome = true
  · exact .inl hfault
  right
  cases hrun : w.sh.callCxt with
  | some x =>
      obtain ⟨cl, hcl⟩ := running_client hw.reachable hrun
      have hrest := running_rests hw.reachable x.client cl x.side hcl hrun
      obtain ⟨ch, hch, hco⟩ := coStep_enabled (l := ⟨x.client, cl, w.sh⟩) hrest
      have hnone := hstop ch
      unfold step at hnone
      rw [if_neg hfault, hrun] at hnone
      cases ch with
      | dnsDone eid => exact absurd rfl (hch eid)
      | _ =>
          simp only [hcl, Option.map_eq_none_iff] at hnone
          rw [hnone] at hco
          exact absurd hco (by simp)
  | none =>
      have hnone := hstop .tau
      unfold step at hnone
      rw [if_neg hfault, hrun] at hnone
      exact ⟨mainStep_enabled ((heedsExit hw.reachable).main hw.exiting) hnone, rfl⟩

theorem Leaves.run (hw : Leaves w) (h : Run World.step (fun _ _ => True) w w') : Leaves w' := by
  induction h with
  | start => exact hw
  | step _ _ hs ih => exact ih.step hs

/-- From every state there is a run to one that cannot go on. -/
theorem Leaves.exists_end (hw : Leaves w) :
    ∃ w', Run World.step (fun _ _ => True) w w' ∧ ∀ ch, w'.step ch = none := by
  have hacc := hw.acc
  induction hacc with
  | intro w _ ih =>
      by_cases hnext : ∃ w', Next w' w
      · obtain ⟨w₁, hw₁⟩ := hnext
        obtain ⟨ch, hs⟩ := hw₁
        obtain ⟨w', hrun, hstop⟩ := ih w₁ ⟨ch, hs⟩ (hw.step hs)
        exact ⟨w', (Run.start.step trivial hs).append hrun, hstop⟩
      · refine ⟨w, .start, fun ch => ?_⟩
        cases hs : w.step ch with
        | none => rfl
        | some w' => exact absurd ⟨w', ch, hs⟩ hnext

end World

/-- Once `main_stat` is EXITING the process ends, whatever the order of what the coroutines, the
    resolver and the main loop still do: no run goes on for ever, and where a run cannot go on it
    has reached the end of `proxy_done` with no coroutine running, or undefined behaviour. -/
theorem exiting_ends {w : World} (h : w.Reachable) (hexit : w.sh.mainStat = .exiting) :
    (¬ ∃ f : Nat → World, f 0 = w ∧ ∀ n, ∃ ch, (f n).step ch = some (f (n + 1))) ∧
      ∀ w', Run World.step (fun _ _ => True) w w' →
        (∃ w'', Run World.step (fun _ _ => True) w' w'' ∧ ∀ ch, w''.step ch = none) ∧
        ((∀ ch, w'.step ch = none) →
          w'.sh.fault.isSome = true ∨ w'.sh.main = .exited ∧ w'.sh.callCxt = none) := by
  have hw : w.Leaves := ⟨h, hexit⟩
  refine ⟨?_, fun w' hrun => ⟨(hw.run hrun).exists_end, World.stops_exited (hw.run hrun)⟩⟩
  have hacc := hw.acc
  clear h hexit hw
  induction hacc with
  | intro w _ ih =>
      rintro ⟨f, rfl, hf⟩
      exact ih (f 1) (hf 0) ⟨fun n => f (n + 1), rfl, fun n => hf (n + 1)⟩

/-- The process is told to exit while a request waits for its answer. -/
theorem exiting_ends_one : ∃ w : World, w.Reachable ∧ w.sh.mainStat = .exiting ∧
    w.nclients = 1 ∧ w.sh.main ≠ .exited ∧
    (¬ ∃ f : Nat → World, f 0 = w ∧ ∀ n, ∃ ch, (f n).step ch = some (f (n + 1))) ∧
    ∃ w', Run World.step (fun _ _ => True) w w' ∧
      (w'.sh.fault.isSome = true ∨ w'.sh.main = .exited ∧ w'.sh.callCxt = none) := by
  have hd : (World.driveInit (fun _ _ => true) 148 (oneRequest ++ [.exit])).any (fun w =>
      decide (w.sh.mainStat = .exiting) && decide (w.nclients = 1) &&
        decide (w.sh.main ≠ .exited)) = true := by
    decide +kernel
  obtain ⟨w, hw, hp⟩ := World.reachable_of_drive hd
  simp only [Bool.and_eq_true, decide_eq_true_eq] at hp
  obtain ⟨⟨hexit, hn⟩, hmain⟩ := hp
  obtain ⟨hfinite, hall⟩ := exiting_ends hw hexit
  obtain ⟨⟨w', hrun, hstop⟩, -⟩ := hall w .start
  exact ⟨w, hw, hexit, hn, hmain, hfinite, w', hrun, (hall w' hrun).2 hstop⟩

end HttpProxy
