/-
  HttpProxy.System.Calls

  What a step of a coroutine does to core/net_pull.c, the descriptors and core/event.c is a
  sequence of calls that a handler may make (`NetCall`, `EventsCall`), and it does not move
  the main loop (`Shared.Calls`).  `coStep_calls` says so of every step of either coroutine.
  main_stat is written by proxy_done alone (`World.mainStep_mainStat`).
-/

import HttpProxy.System.Cases
import Mathlib.Logic.Relation

namespace HttpProxy

open Relation

-- ============================================================================
-- Calls of the two modules
-- ============================================================================

/-- A call that a handler makes: of core/net_pull.c, or one that opens or closes a descriptor.
    One that is opened is handed to net_pull_add at once, which may fail. -/
inductive NetCall (net : Net) : Net → Prop where
  | openAdd {fd : Fd} (o : FdOwner) (ok : Bool) (err : Option (ClientId × ConnIx)) :
      net.fds fd = none → NetCall net ((net.sysOpen fd o).netPullAdd ok fd err)
  | setHandler (fd : Fd) (d : Dir) (h : Option Handler) :
      NetCall net (net.netPullSetHandler fd d h)
  | del (fd : Fd) : NetCall net (net.netPullDel fd)
  | close (fd : Fd) : NetCall net (net.sysClose fd)
  /-- the record of an operation -/
  | act (c : ClientId) (i : ConnIx) (kind : ActKind) (fd : Fd) :
      NetCall net (net.act c i kind fd)

abbrev NetCalls : Net → Net → Prop := ReflTransGen NetCall

/-- A call of core/event.c that a handler makes. -/
inductive EventsCall (ev : Events) : Events → Prop where
  | post (eid : EventId) (d : Bool) : EventsCall ev (ev.eventPost eid d)
  | setHandler (eid : EventId) (x : Co) : EventsCall ev (ev.eventSetHandler eid x)
  | freeId (eid : EventId) : EventsCall ev (ev.eventFreeId eid)
  | getId : EventsCall ev ev.eventGetId

abbrev EventsCalls : Events → Events → Prop := ReflTransGen EventsCall

/-- From `sh` to `sh'` only such calls are made, and the main loop stays where it is. -/
structure Shared.Calls (sh sh' : Shared) : Prop where
  mainStat : sh'.mainStat = sh.mainStat
  main : sh'.main = sh.main
  net : NetCalls sh.net sh'.net
  ev : EventsCalls sh.ev sh'.ev

namespace Shared.Calls

variable {sh sh₁ sh₂ : Shared}

theorem refl (sh : Shared) : sh.Calls sh := ⟨rfl, rfl, .refl, .refl⟩

theorem trans (h₁ : sh.Calls sh₁) (h₂ : sh₁.Calls sh₂) : sh.Calls sh₂ where
  mainStat := h₂.mainStat.trans h₁.mainStat
  main := h₂.main.trans h₁.main
  net := h₁.net.trans h₂.net
  ev := h₁.ev.trans h₂.ev

/-- An operation that leaves all but the heap objects and the descriptors alone. -/
theorem of_frame {l l' : Local} (h : Local.Frame l l') (hnet : NetCalls l.sh.net l'.sh.net) :
    l.sh.Calls l'.sh := by
  obtain ⟨-, -, -, -, -, -, -, hstat, hmain, -, hev, -⟩ := h
  exact ⟨hstat, hmain, hnet, hev ▸ .refl⟩

end Shared.Calls

-- ============================================================================
-- Operations of a coroutine
-- ============================================================================

namespace Shared.Calls

variable {sh : Shared} {l : Local} (h : sh.Calls l.sh) (i : ConnIx) (j : ReqIx)

include h

theorem raise (f : Fault) : sh.Calls (l.raise f).sh :=
  h.trans (.of_frame (l.raise_frame f) .refl)

theorem increfConn : sh.Calls (l.increfConn i).sh :=
  h.trans (.of_frame (l.increfConn_frame i) (l.increfConn_net i ▸ .refl))

theorem decrefConnNull : sh.Calls (l.decrefConnNull i).sh :=
  h.trans (.of_frame (l.decrefConnNull_frame i) (l.decrefConnNull_net i ▸ .refl))

theorem increfReq : sh.Calls (l.increfReq j).sh :=
  h.trans (.of_frame (l.increfReq_frame j) (l.increfReq_net j ▸ .refl))

theorem decrefReq : sh.Calls (l.decrefReq j).sh :=
  h.trans (.of_frame (l.decrefReq_frame j) (l.decrefReq_net j ▸ .refl))

theorem connDel : sh.Calls (l.connDel i).sh :=
  h.trans (.of_frame (l.connDel_frame i) (.tail (.single (.act _ _ _ _)) (.del _)))

theorem closeFd : sh.Calls (l.closeFd i).sh := by
  apply (h.connDel i).trans
  exact .of_frame (by simp [Local.Frame]) (.tail (.single (.act _ _ _ _)) (.close _))

theorem connClose : sh.Calls (l.connClose i).sh := by
  unfold Local.connClose
  split
  · exact h
  · exact h.closeFd i

theorem connDone : sh.Calls (l.connDone i).sh := by
  unfold Local.connDone
  split
  · exact h.closeFd i
  · exact h.connClose i

/-- The last reference to a connection closes it. -/
theorem decrefConn : sh.Calls (l.decrefConn i).sh := by
  unfold Local.decrefConn
  dsimp only
  split
  · exact (h.decrefConnNull i).connDone i
  · exact h.decrefConnNull i

theorem evicted (ep : Endpoint) (s : ConnIx) : sh.Calls (l.evicted ep s).sh :=
  decrefConn (l := { l with cl.cxt := l.cl.cxt.poolDel ep }) h s

omit h in
theorem dropPool (h : sh.Calls l.sh) (ts : List (Endpoint × ConnIx)) :
    sh.Calls (l.dropPool ts).sh := by
  induction ts generalizing l with
  | nil => exact h
  | cons t ts ih => exact ih ((h.connClose t.2).decrefConn t.2)

omit h in
theorem dropList (h : sh.Calls l.sh) (es : List (Nat × Entry)) :
    sh.Calls (l.dropList es).sh := by
  induction es generalizing l with
  | nil => exact h
  | cons e es ih => exact ih ((h.decrefConn e.2.server).decrefReq e.2.req)

theorem setReqPc (pc : ReqPc) : sh.Calls (l.setReqPc pc).sh := h

theorem setRspPc (pc : RspPc) : sh.Calls (l.setRspPc pc).sh := h

/-- A coroutine that waits sets the handler of what it waits for. -/
theorem park (side : Side) (x : Wait) : sh.Calls (l.park side x).sh := by
  apply h.trans
  cases x with
  | io fd d => exact ⟨rfl, rfl, .single (.setHandler fd d _), .refl⟩
  | event eid => exact ⟨rfl, rfl, .refl, .single (.setHandler eid _)⟩

theorem leave : sh.Calls l.leave.sh := h.trans ⟨rfl, rfl, .refl, .refl⟩

theorem newConn {fd : Fd} (ep : Endpoint) (ok : Bool) (hfd : l.sh.net.fds fd = none) :
    sh.Calls (l.newConn fd ep ok).sh :=
  h.trans (.of_frame (l.newConn_frame fd ep ok) (.single (.openAdd _ ok _ hfd)))

/-- A call of core/event.c. -/
theorem event {ev : Events} (hev : EventsCall l.sh.ev ev) : sh.Calls { l.sh with ev } :=
  h.trans ⟨rfl, rfl, .refl, .single hev⟩

-- ============================================================================
-- Functions of core/net_handle.c
-- ============================================================================

theorem appendEntry (s : ConnIx) : sh.Calls (l.appendEntry j s).sh :=
  (h.increfConn s).increfReq j

theorem forwarded (s : ConnIx) : sh.Calls (l.forwarded j s).sh := by
  unfold Local.forwarded
  dsimp only
  split
  · exact (h.appendEntry j s).event (.post _ true)
  · exact h.appendEntry j s

theorem gotServer (s : ConnIx) : sh.Calls (l.gotServer j s).sh := by
  have hgot := l.gotServer_cases j s
  generalize l.gotServer j s = l' at hgot ⊢
  cases hgot with
  | http _ => exact h
  | connect _ => exact (h.appendEntry j s).event (.post _ true)

theorem gotNewConn : sh.Calls (l.gotNewConn j i).sh := by
  have hpooled : sh.Calls (l.pooled i).sh := by
    unfold Local.pooled
    dsimp only
    split
    · exact decrefConn (l := l.connInit i) h i
    · exact h
  exact (hpooled.increfConn i).gotServer j i

theorem reqFailed (server : Option ConnIx) : sh.Calls (l.reqFailed j server).sh := by
  cases server with
  | none => exact h.decrefReq j
  | some s => exact (h.decrefConn s).decrefReq j

theorem dnsResolved (eid : EventId) (res : Option (List AddrInfo)) :
    sh.Calls (l.dnsResolved j eid res).sh := by
  cases res with
  | none => exact h.event (.freeId eid)
  | some rps => exact h.trans ⟨rfl, rfl, .refl, .single (.freeId eid)⟩

theorem reqDone : sh.Calls l.reqDone.sh := by
  unfold Local.reqDone
  dsimp only
  split
  · exact h
  · apply park
    exact h.event (.post _ false)

theorem reqCleanup : sh.Calls l.reqCleanup.sh := by
  unfold Local.reqCleanup
  dsimp only
  apply leave
  apply setReqPc
  apply decrefConn
  refine event ?_ (.freeId _)
  apply dropList
  exact h.dropPool l.cl.cxt.pool

theorem rspPop (k : Nat) (e : Entry) : sh.Calls (l.rspPop k e).sh :=
  (h.decrefConn e.server).decrefReq e.req

theorem rspExit : sh.Calls l.rspExit.sh := by
  unfold Local.rspExit
  dsimp only
  apply leave
  apply setRspPc
  apply decrefConn
  split
  · exact h.trans ⟨rfl, rfl, .refl, .tail (.single (.post _ false)) (.freeId _)⟩
  · exact h.event (.freeId _)

end Shared.Calls

-- ============================================================================
-- Steps
-- ============================================================================

variable {l l' : Local}

theorem ioCase_calls {side : Side} {srv : ConnIx} {α : Type} {p p' : Io α}
    (hio : IoCase l side srv p l' p') : l.sh.Calls l'.sh := by
  have h := Shared.Calls.refl l.sh
  cases hio with
  | unroll body s k => exact h
  | stuck o k f => exact h.raise f
  | yield r d k hfreed => exact h.park side _
  | act hfreed hact =>
      cases hact with
      | mainStat => exact h
      | stat r => exact h
      | getBuf r => exact h
      | setBuf r b => exact h
      | sys r q res hok =>
          unfold Local.sysIo
          dsimp only
          split <;> exact h.trans ⟨rfl, rfl, .single (.act _ _ _ _), .refl⟩
      | close r => exact h.connClose _
      | mark a => exact h
      | log size => exact h

/-- A step of the request coroutine. -/
theorem reqCase_calls (hcase : ReqCase l l') : l.sh.Calls l'.sh := by
  have h := Shared.Calls.refl l.sh
  cases hcase with
  | io _ hio =>
      apply Shared.Calls.setReqPc
      exact ioCase_calls hio
  | answeredBad _ => exact h.decrefReq _
  | answeredGateway _ => exact h.reqFailed _ _
  | forwarded _ => exact h.forwarded _ _
  | notForwarded _ _ => exact h.decrefConn _
  | bodyDone _ => exact (h.decrefConn _).decrefReq _
  | tunnelDone _ => exact h.reqFailed _ _
  | lookup _ =>
      apply Shared.Calls.park
      apply Shared.Calls.setReqPc
      exact h.trans ⟨rfl, rfl, .refl, .single .getId⟩
  | noLookup _ => exact (h.event .getId).raise _
  | resolved _ => exact h.dnsResolved _ _ _
  | evict _ _ _ _ _ =>
      apply Shared.Calls.setReqPc
      exact h.evicted _ _
  | reuse _ _ _ => exact (h.increfConn _).gotServer _ _
  | newConn _ hfd => exact (h.newConn _ _ hfd).gotNewConn _ _
  | connecting _ hfd =>
      apply Shared.Calls.park
      apply Shared.Calls.setReqPc
      exact h.newConn _ _ hfd
  | notConnected _ => exact (h.connDel _).decrefConnNull _
  | connected _ _ => exact h.gotNewConn _ _
  | done _ => exact h.reqDone
  | cleanup _ => exact h.reqCleanup
  -- the others only move on
  | stop _ | fetch _ | unknown _ | refused _ | dispatch _ _ _ | answered _ | bodyFailed _ _
  | okFailed _ _ | okDone _ | cached _ | noAddr _ | otherFamily _ | notPooled _ _ | noConn _ =>
      exact h

/-- A step of the response coroutine. -/
theorem rspCase_calls (hcase : RspCase l l') : l.sh.Calls l'.sh := by
  have h := Shared.Calls.refl l.sh
  cases hcase with
  | stuck f => exact h.raise f
  | leave _ _ => exact h
  | sleep _ _ _ =>
      apply Shared.Calls.park
      exact h
  | serve _ _ _ _ _ _ => exact h
  | io _ _ hio =>
      apply Shared.Calls.setRspPc
      exact ioCase_calls hio
  | evict _ _ _ _ _ =>
      apply Shared.Calls.rspPop
      exact h.evicted _ _
  | again _ _ _ => exact h
  | pop _ _ _ _ => exact h.rspPop _ _
  | exit _ _ => exact h.rspExit

/-- A step of a coroutine makes calls that a handler may make. -/
theorem coStep_calls {side : Side} {ch : Choice} (hs : coStep side l ch = some l') :
    l.sh.Calls l'.sh := by
  cases side with
  | req => exact reqCase_calls (reqStep_cases hs)
  | rsp => exact rspCase_calls (rspStep_cases hs)

-- ============================================================================
-- main_stat
-- ============================================================================

namespace World

variable (w : World)

theorem asyncResume_mainStat (x : Co) (ret : Int) (k : Main) :
    (w.asyncResume x ret k).sh.mainStat = w.sh.mainStat := by
  unfold asyncResume
  split
  · rfl
  · split <;> rfl

theorem callHandler_mainStat (f : Handler) (ev : EpollEvent) (k : Main) :
    (w.callHandler f ev k).sh.mainStat = w.sh.mainStat := by
  cases f with
  | co x => exact w.asyncResume_mainStat x _ k
  | accept sfd =>
      rw [callHandler]
      split <;> rfl
  | dns => rfl

theorem nextTodo_mainStat (t : Todo) :
    (w.nextTodo t).sh.mainStat = w.sh.mainStat := by
  have herr (w₁ : World) (o : Option (ClientId × ConnIx)) :
      ((o.map w₁.connErr).getD w₁).sh.mainStat = w₁.sh.mainStat := by
    obtain ⟨fault, hsh⟩ := connErr_shared w₁ o
    rw [hsh]
  cases t with
  | batch evs =>
      cases evs with
      | nil => rfl
      | cons ev evs =>
          rw [nextTodo]
          split
          · rfl
          · dsimp only
            split
            · exact herr _ _
            · rfl
  | done ents =>
      cases ents with
      | nil => rfl
      | cons e ents => exact herr w e.err

theorem eventWork_mainStat : w.eventWork.sh.mainStat = w.sh.mainStat := by
  unfold eventWork
  split
  · split <;> rfl
  · split
    · rfl
    · exact asyncResume_mainStat _ _ _ _

/-- A step of the main loop leaves main_stat as it is, or is the one into proxy_done. -/
theorem mainStep_mainStat {w' : World} {ch : Choice} (h : w.mainStep ch = some w') :
    w'.sh.mainStat = w.sh.mainStat ∨ w' = w.proxyDone := by
  unfold mainStep at h
  split at h
  · exact .inl (Option.some.inj h ▸ w.eventWork_mainStat)
  · exact .inl (Option.some.inj h ▸ rfl)
  · unfold epollWait at h
    split at h
    · split at h
      · exact .inr (Option.some.inj h).symm
      · obtain ⟨-, heq⟩ := Option.ite_none_right_eq_some.mp h
        exact .inl (Option.some.inj heq ▸ rfl)
    · exact .inr (Option.some.inj h).symm
    · exact absurd h (by simp)
  · exact .inl (Option.some.inj h ▸ w.nextTodo_mainStat _)
  · split at h
    · exact .inl (Option.some.inj h ▸ rfl)
    · exact .inl (Option.some.inj h ▸ w.callHandler_mainStat _ _ _)
  · split at h
    · exact .inl (Option.some.inj h ▸ rfl)
    · exact .inl (Option.some.inj h ▸ w.callHandler_mainStat _ _ _)
  · split at h
    · exact .inl (Option.some.inj h ▸ rfl)
    · obtain ⟨-, heq⟩ := Option.ite_none_left_eq_some.mp h
      exact .inl (Option.some.inj heq ▸ rfl)
    · exact absurd h (by simp)
  · split at h <;> exact .inl (Option.some.inj h ▸ rfl)
  · exact absurd h (by simp)

end World

end HttpProxy
