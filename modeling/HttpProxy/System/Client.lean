/-
  HttpProxy.System.Client

  A step as one client sees it (`World.client_cases`): it is left alone, one of
  its coroutines makes a step or is resumed, the main loop marks one of its
  connections as closed, or it is new.  An invariant of one client is proved once
  for each of these (`client_invariant`).

  A step of a coroutine inside an I/O call is taken apart by `ioStep_inv`, with
  what an operation does and answers in `IoAct`.
-/

import HttpProxy.System.Condition
import HttpProxy.Notify.Refine
import HttpProxy.Notify.Ids

namespace HttpProxy

open Lib Notify

-- ============================================================================
-- One I/O operation
-- ============================================================================

/-- Operation `o` of the coroutine on `side`, whose server is `srv`, is answered
    with `r` and leads from `l` to `l'`. -/
inductive IoAct (l : Local) (side : Side) (srv : ConnIx) : (o : IoOp) → o.Res → Local → Prop where
  | mainStat : IoAct l side srv .mainStat l.sh.mainStat l
  | stat (r : Role) : IoAct l side srv (.stat r) (l.cl.mem.conns (r.ix srv)).stat l
  | getBuf (r : Role) : IoAct l side srv (.getBuf r) (l.cl.mem.conns (r.ix srv)).io l
  | setBuf (r : Role) (b : IoBuf) :
      IoAct l side srv (.setBuf r b) ()
        { l with cl.mem := l.cl.mem.setConn (r.ix srv) fun c => { c with io := b } }
  | sys (r : Role) (q : SysReq) (res : SysRes) :
      sysOk l.sh.net (l.cl.mem.conns (r.ix srv)).fd q res = true →
      IoAct l side srv (.sys r q) res (l.sysIo side r (r.ix srv) q res)
  | close (r : Role) : IoAct l side srv (.close r) () (l.connClose (r.ix srv))
  | mark (a : Ans) : IoAct l side srv (.mark a) () { l with cl.hist := l.cl.logMark side a }
  | log (size : Int) :
      IoAct l side srv (.log size) ()
        { l with cl.hist.logged := l.cl.hist.logged ++ [(l.cl.rspNo, size)] }

/-- What a step of a program is. -/
inductive IoCase (l : Local) (side : Side) (srv : ConnIx) {α : Type} :
    Io α → Local → Io α → Prop where
  | unroll {σ β : Type} (body : σ → Io (σ ⊕ β)) (s : σ) (k : β → Io α) :
      IoCase l side srv (.iter body s k) l (Prog.iter body s k).unroll
  /-- it uses a connection that has been freed, or has no defined behaviour -/
  | stuck (o : IoOp) (k : o.Res → Io α) (f : Fault) :
      IoCase l side srv (.call o k) (l.raise f) (.call o k)
  | yield (r : Role) (d : Dir) (k : Int → Io α) : l.usesFreed srv (.yield r d) = false →
      IoCase l side srv (.call (.yield r d) k)
        (l.park side (.io (l.cl.mem.conns (r.ix srv)).fd d)) (.call (.yield r d) k)
  | act {o : IoOp} {k : o.Res → Io α} {r : o.Res} {l' : Local} : l.usesFreed srv o = false →
      IoAct l side srv o r l' → IoCase l side srv (.call o k) l' (k r)

theorem Local.ioStep_inv {l l' : Local} {side : Side} {srv : ConnIx} {ch : Choice} {α : Type}
    {p p' : Io α} (h : l.ioStep side srv ch p = some (l', p')) : IoCase l side srv p l' p' := by
  cases p with
  | ret a => simp [ioStep] at h
  | iter body s k =>
      simp only [ioStep, Option.some.injEq, Prod.mk.injEq] at h
      obtain ⟨rfl, rfl⟩ := h
      exact .unroll body s k
  | call o k =>
      simp only [ioStep] at h
      split at h
      · simp only [Option.some.injEq, Prod.mk.injEq] at h
        obtain ⟨rfl, rfl⟩ := h
        exact .stuck o k _
      · rename_i hfreed
        rw [Bool.not_eq_true] at hfreed
        cases o with
        | ub =>
            simp only [ioOp, Option.some.injEq, Prod.mk.injEq] at h
            obtain ⟨rfl, rfl⟩ := h
            exact .stuck .ub k _
        | yield r d =>
            simp only [ioOp, Option.some.injEq, Prod.mk.injEq] at h
            obtain ⟨rfl, rfl⟩ := h
            exact .yield r d k hfreed
        | sys r q =>
            simp only [ioOp] at h
            split at h
            · rename_i res
              split at h
              · rename_i hok
                simp only [Option.some.injEq, Prod.mk.injEq] at h
                obtain ⟨rfl, rfl⟩ := h
                exact .act hfreed (.sys r q res hok)
              · exact absurd h (by simp)
            · exact absurd h (by simp)
        | mainStat =>
            simp only [ioOp, Option.some.injEq, Prod.mk.injEq] at h
            obtain ⟨rfl, rfl⟩ := h
            exact .act hfreed .mainStat
        | stat r =>
            simp only [ioOp, Option.some.injEq, Prod.mk.injEq] at h
            obtain ⟨rfl, rfl⟩ := h
            exact .act hfreed (.stat r)
        | getBuf r =>
            simp only [ioOp, Option.some.injEq, Prod.mk.injEq] at h
            obtain ⟨rfl, rfl⟩ := h
            exact .act hfreed (.getBuf r)
        | setBuf r b =>
            simp only [ioOp, Option.some.injEq, Prod.mk.injEq] at h
            obtain ⟨rfl, rfl⟩ := h
            exact .act hfreed (.setBuf r b)
        | close r =>
            simp only [ioOp, Option.some.injEq, Prod.mk.injEq] at h
            obtain ⟨rfl, rfl⟩ := h
            exact .act hfreed (.close r)
        | mark a =>
            simp only [ioOp, Option.some.injEq, Prod.mk.injEq] at h
            obtain ⟨rfl, rfl⟩ := h
            exact .act hfreed (.mark a)
        | log size =>
            simp only [ioOp, Option.some.injEq, Prod.mk.injEq] at h
            obtain ⟨rfl, rfl⟩ := h
            exact .act hfreed (.log size)

-- ============================================================================
-- One client
-- ============================================================================

/-- `conn_err_handler` as the client sees it. -/
def Client.connErr (cl : Client) (i : ConnIx) : Client :=
  { cl with mem := cl.mem.setConn i fun k => { k with stat := .closed } }

/-- A step as client `c` sees it, which is `cl'` after it. -/
inductive ClientCase (w w' : World) (ch : Choice) (c : ClientId) (cl' : Client) : Prop where
  | same : w.clients c = some cl' →
      (∀ side, w'.sh.callCxt = some ⟨c, side⟩ → w.sh.callCxt = some ⟨c, side⟩) →
      ClientCase w w' ch c cl'
  | co {side : Side} {cl : Client} {l' : Local} : w.sh.callCxt = some ⟨c, side⟩ →
      w.clients c = some cl → coStep side ⟨c, cl, w.sh⟩ ch = some l' → cl' = l'.cl →
      w'.sh = l'.sh → ClientCase w w' ch c cl'
  | resume {side : Side} {cl : Client} {ret : Int} {m : Main} : w.sh.callCxt = none →
      w.clients c = some cl → cl.isFinished side = false → cl' = cl.resume side ret →
      w'.sh = { w.sh with main := m, callCxt := some ⟨c, side⟩ } → ClientCase w w' ch c cl'
  | err {cl : Client} {i : ConnIx} : w.sh.callCxt = none → w'.sh.callCxt = none →
      w.clients c = some cl → (cl.mem.conns i).cnt ≠ 0 → cl' = cl.connErr i →
      ClientCase w w' ch c cl'
  | new {fd : Fd} {ep : Endpoint} : c = w.nclients → w.sh.callCxt = none →
      w'.sh.callCxt = none → w.sh.net.fds fd = none →
      cl' = World.newClient w.sh
        { fd, stat := .used, io := ioBufInit, ep, cnt := 2, shut := false } →
      ClientCase w w' ch c cl'

namespace World

variable {w w' : World} {ch : Choice} {c : ClientId} {cl' : Client}

theorem setClient_cases {c₀ : ClientId} {cl : Client}
    (h : (w.setClient c₀ cl).clients c = some cl') :
    c = c₀ ∧ cl' = cl ∨ c ≠ c₀ ∧ w.clients c = some cl' := by
  unfold setClient at h
  dsimp only at h
  by_cases hc : c = c₀
  · subst hc
    rw [Function.update_self, Option.some.injEq] at h
    exact .inl ⟨rfl, h.symm⟩
  · rw [Function.update_of_ne hc] at h
    exact .inr ⟨hc, h⟩

theorem coStep_callCxt {side : Side} {l l' : Local} {ch : Choice}
    (h : coStep side l ch = some l') :
    l'.sh.callCxt = l.sh.callCxt ∨ l'.sh.callCxt = none := by
  cases side with
  | req => exact (reqStep_refines h).step.running
  | rsp => exact (rspStep_refines h).step.running

/-- The main loop resumes a coroutine, or stops. -/
theorem asyncResume_case {x : Co} {ret : Int} {m : Main} (hrun : w.sh.callCxt = none)
    (h : (w.asyncResume x ret m).clients c = some cl') :
    ClientCase w (w.asyncResume x ret m) ch c cl' := by
  have hfault (h : w.clients c = some cl') :
      ClientCase w { w with sh := w.sh.raise .useAfterFree } ch c cl' :=
    .same h fun side hside => hside
  unfold asyncResume at h ⊢
  split at h
  · exact hfault h
  · rename_i cl hcl
    split at h
    · rw [if_pos ‹_›]
      exact hfault h
    · rename_i hfin
      rw [if_neg hfin]
      rw [Bool.not_eq_true] at hfin
      obtain ⟨c₀, side⟩ := x
      rcases setClient_cases h with ⟨rfl, rfl⟩ | ⟨hne, h⟩
      · exact .resume hrun hcl hfin rfl rfl
      · refine .same h fun side' hside => ?_
        simp only [Option.some.injEq, Co.mk.injEq] at hside
        exact absurd hside.1.symm hne

theorem connErr_case (w₁ : World) {o : Option (ClientId × ConnIx)} (hrun : w.sh.callCxt = none)
    (hclients : w₁.clients = w.clients) (hrun' : w'.sh.callCxt = none)
    (h : ((o.map w₁.connErr).getD w₁).clients c = some cl') : ClientCase w w' ch c cl' := by
  have hsame (h : w₁.clients c = some cl') : ClientCase w w' ch c cl' :=
    .same (hclients ▸ h) fun side hside => absurd (hrun'.symm.trans hside) (by simp)
  cases o with
  | none => exact hsame h
  | some t =>
      rw [Option.map_some, Option.getD_some] at h
      unfold connErr at h
      split at h
      · exact hsame h
      · rename_i cl hcl
        split at h
        · exact hsame h
        · rename_i hcnt
          obtain ⟨c₀, i⟩ := t
          rcases setClient_cases h with ⟨rfl, rfl⟩ | ⟨-, h⟩
          · exact .err hrun hrun' (hclients ▸ hcl) hcnt rfl
          · exact hsame h

/-- conn_err_handler marks a connection, or is the end of the run. -/
theorem connErr_shared (w : World) (o : Option (ClientId × ConnIx)) :
    ∃ fault, ((o.map w.connErr).getD w).sh = { w.sh with fault } := by
  cases o with
  | none => exact ⟨w.sh.fault, rfl⟩
  | some t =>
      rw [Option.map_some, Option.getD_some, connErr]
      split
      · exact ⟨_, rfl⟩
      · split <;> exact ⟨_, rfl⟩

theorem connErr_callCxt (w : World) (o : Option (ClientId × ConnIx)) :
    ((o.map w.connErr).getD w).sh.callCxt = w.sh.callCxt := by
  obtain ⟨fault, hsh⟩ := connErr_shared w o
  rw [hsh]

theorem mainStep_case (hrun : w.sh.callCxt = none) (h : w.mainStep ch = some w')
    (hcl' : w'.clients c = some cl') : ClientCase w w' ch c cl' := by
  have hsame (hclients : w'.clients = w.clients) (hrun' : w'.sh.callCxt = none) :
      ClientCase w w' ch c cl' :=
    .same (hclients ▸ hcl') fun side hside => absurd (hrun'.symm.trans hside) (by simp)
  have hhandler {hd : Handler} {ev : EpollEvent} {k : Main} (hw' : w' = w.callHandler hd ev k) :
      ClientCase w w' ch c cl' := by
    cases hd with
    | co x =>
        subst hw'
        exact asyncResume_case hrun hcl'
    | accept sfd =>
        rw [callHandler] at hw'
        split at hw' <;> subst hw' <;> exact hsame rfl hrun
    | dns => exact hsame (hw' ▸ rfl) (hw' ▸ hrun)
  unfold mainStep at h
  split at h <;> rename_i hmain
  · rw [Option.some.injEq] at h
    unfold eventWork at h
    split at h
    · split at h <;> subst h <;> exact hsame rfl hrun
    · split at h
      · subst h
        exact hsame rfl hrun
      · subst h
        exact asyncResume_case hrun hcl'
  · rw [Option.some.injEq] at h
    subst h
    exact hsame rfl hrun
  · unfold epollWait at h
    split at h
    · split at h
      · rw [Option.some.injEq] at h
        subst h
        exact hsame rfl hrun
      · split at h
        · rw [Option.some.injEq] at h
          subst h
          exact hsame rfl hrun
        · exact absurd h (by simp)
    · rw [Option.some.injEq] at h
      subst h
      exact hsame rfl hrun
    · exact absurd h (by simp)
  · rename_i t
    rw [Option.some.injEq] at h
    cases t with
    | batch evs =>
        cases evs with
        | nil =>
            subst h
            exact hsame rfl hrun
        | cons ev evs =>
            rw [nextTodo] at h
            split at h
            · subst h
              exact hsame rfl hrun
            · rename_i nh hnh
              dsimp only at h
              split at h
              · subst h
                exact connErr_case { w with
                    sh.net := (w.sh.net.netPullSetHandler ev.fd .read none).netPullSetHandler
                      ev.fd .write none }
                  hrun rfl ((connErr_callCxt _ _).trans hrun) hcl'
              · subst h
                exact hsame rfl hrun
    | done ents =>
        cases ents with
        | nil =>
            subst h
            exact hsame rfl hrun
        | cons nh ents =>
            subst h
            exact connErr_case w hrun rfl ((connErr_callCxt _ _).trans hrun) hcl'
  · split at h
    · rw [Option.some.injEq] at h
      subst h
      exact hsame rfl hrun
    · rw [Option.some.injEq] at h
      exact hhandler h.symm
  · split at h
    · rw [Option.some.injEq] at h
      subst h
      exact hsame rfl hrun
    · rw [Option.some.injEq] at h
      exact hhandler h.symm
  · split at h
    · rw [Option.some.injEq] at h
      subst h
      exact hsame rfl hrun
    · rename_i fd ep ok
      split at h
      · exact absurd h (by simp)
      · rename_i hfd
        rw [Option.some.injEq] at h
        subst h
        by_cases hc : c = w.nclients
        · have hfree : w.sh.net.fds fd = none := by simpa using hfd
          have hnew : cl' = World.newClient w.sh
              { fd, stat := .used, io := ioBufInit, ep, cnt := 2, shut := false } := by
            subst hc
            simpa [acceptConn] using hcl'.symm
          exact .new hc hrun hrun hfree hnew
        · refine .same ?_ fun side hside => absurd (hrun.symm.trans hside) (by simp)
          simpa [acceptConn, Function.update_of_ne hc] using hcl'
    · exact absurd h (by simp)
  · split at h
    · rw [Option.some.injEq] at h
      subst h
      exact hsame rfl hrun
    · rw [Option.some.injEq] at h
      subst h
      exact hsame rfl hrun
  · exact absurd h (by simp)

theorem client_cases (h : w.step ch = some w') (hcl' : w'.clients c = some cl') :
    ClientCase w w' ch c cl' := by
  rcases step_cases h with ⟨eid, hd⟩ | ⟨hrun, hm⟩ | ⟨⟨c₀, side⟩, cl, l', hrun, hcl, hl', rfl⟩
  · have hcx : w'.sh.callCxt = w.sh.callCxt := by
      unfold dnsDone at hd
      split at hd
      · rw [Option.some.injEq] at hd
        exact hd ▸ rfl
      · exact absurd hd (by simp)
    exact .same (dnsDone_clients hd ▸ hcl') fun side hside => hcx ▸ hside
  · exact mainStep_case hrun hm hcl'
  · rcases setClient_cases hcl' with ⟨rfl, rfl⟩ | ⟨hne, hcl'⟩
    · exact .co hrun hcl hl' rfl rfl
    · refine .same hcl' fun side' hside => ?_
      rcases coStep_callCxt hl' with hc | hc
      · have heq := (hrun.symm.trans hc.symm).trans hside
        simp only [Option.some.injEq, Co.mk.injEq] at heq
        exact absurd heq.1.symm hne
      · exact absurd (hc.symm.trans hside) (by simp)

end World
end HttpProxy
