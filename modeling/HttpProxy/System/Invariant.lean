/-
  HttpProxy.System.Invariant

  The rule for an invariant of one client in runs whose steps meet a condition
  (`World.client_invariant`): it holds of a new client, and is kept by a step of
  either coroutine, by resuming one that waits, and by `conn_err_handler`.
-/

import HttpProxy.System.Cases
import HttpProxy.Notify.Proxy

namespace HttpProxy

open Lib Notify

/-- Every coroutine that does not run waits where it is, in every run. -/
theorem World.parkOk {ok : World → Choice → Prop} {w : World} (h : Run World.step ok World.init w) :
    ParkOk w.notify :=
  notify_invariant (I := ParkOk) matched_init.park (fun _ _ _ hI _ _ hs => parkOk_step hI hs) h

/-- A condition that asks nothing. -/
theorem World.coOk_true (w : World) (ch : Choice) : w.coOk (fun _ _ _ => true) ch = true := by
  unfold coOk
  split
  · rfl
  · rfl
  · split <;> rfl

/-- What a client goes through keeps `I`, when `J` is known to hold; a coroutine that makes a
    step meets `g`. -/
structure ClientInvariant (g : Side → Local → Choice → Bool) (J I : Client → Prop) : Prop where
  new : ∀ sh conn, conn.cnt = 2 → conn.io = ioBufInit → I (World.newClient sh conn)
  req : ∀ l l' ch, g .req l ch = true → l.cl.reqWait = none → J l.cl → I l.cl → ReqCase l l' →
    I l'.cl
  rsp : ∀ l l' ch, g .rsp l ch = true → l.cl.rspWait = none → J l.cl → I l.cl → RspCase l l' →
    I l'.cl
  resume : ∀ cl side ret, cl.peer.Parked side → J cl → I cl → I (cl.resume side ret)
  err : ∀ cl i, (cl.mem.conns i).cnt ≠ 0 → J cl → I cl → I (cl.connErr i)

theorem World.client_invariant {ok : World → Choice → Prop} {g : Side → Local → Choice → Bool}
    {J I : Client → Prop} (hI : ClientInvariant g J I)
    (hg : ∀ w ch, ok w ch → w.coOk g ch = true)
    (hJ : ∀ w, Run World.step ok World.init w → ∀ c cl, w.clients c = some cl → J cl)
    {w : World} (h : Run World.step ok World.init w) {c : ClientId} {cl : Client}
    (hcl : w.clients c = some cl) : I cl := by
  have hall : ∀ c cl, w.clients c = some cl → I cl := by
    refine h.invariant_of (J := fun w => ParkOk w.notify ∧ ∀ c cl, w.clients c = some cl → J cl)
      (fun w => ∀ c cl, w.clients c = some cl → I cl) (fun w hr => ⟨parkOk hr, hJ w hr⟩) ?_ ?_
    · intro c cl hcl
      exact absurd hcl (by simp [init])
    · intro w w' ch hJ hI' hok hs c cl' hcl'
      obtain ⟨hpark, hJ⟩ := hJ
      have hpeer {c : ClientId} {cl : Client} (hcl : w.clients c = some cl) :
          w.notify.peers c = some cl.peer := by
        simp [World.notify, hcl]
      cases client_cases hs hcl' with
      | same hcl _ => exact hI' c cl' hcl
      | @co side cl l' hrun hcl hstep heq _ =>
          rcases coOk_cases (hg w ch hok) hs hrun hcl with ⟨eid, hdns⟩ | ⟨hside, -⟩
          · rw [dnsDone_clients hdns, hcl, Option.some.injEq] at hcl'
            rw [← hcl']
            exact hI' c cl hcl
          · rw [heq]
            have hwait := hpark.running ⟨c, side⟩ cl.peer hrun (hpeer hcl)
            cases side with
            | req =>
                exact hI.req ⟨c, cl, w.sh⟩ l' ch hside hwait (hJ c cl hcl) (hI' c cl hcl)
                  (reqStep_cases hstep)
            | rsp =>
                exact hI.rsp ⟨c, cl, w.sh⟩ l' ch hside hwait (hJ c cl hcl) (hI' c cl hcl)
                  (rspStep_cases hstep)
      | @resume side cl ret m hrun hcl _ heq _ =>
          rw [heq]
          refine hI.resume cl side ret (hpark.parked ⟨c, side⟩ cl.peer ?_ (hpeer hcl))
            (hJ c cl hcl) (hI' c cl hcl)
          show w.sh.callCxt ≠ _
          simp [hrun]
      | @err cl i _ _ hcl hcnt heq =>
          rw [heq]
          exact hI.err cl i hcnt (hJ c cl hcl) (hI' c cl hcl)
      | new _ _ _ _ heq =>
          rw [heq]
          exact hI.new _ _ rfl rfl
  exact hall c cl hcl

end HttpProxy
