/-
  HttpProxy.System.Condition

  Conditions on the steps of a run.  What goes wrong in a coroutine is decided in
  its own steps, so a condition is mostly one on the coroutine that runs, with
  the state it sees (`World.coOk`).  Conditions are computable, so that the steps
  of a concrete run can be checked.
-/

import HttpProxy.System.Frame
import HttpProxy.Lib.Run

namespace HttpProxy

open Lib

namespace World

/-- A state some run of the proxy reaches. -/
def Reachable (w : World) : Prop := Run step (fun _ _ => True) init w

/-- Follow choices from the start. -/
def driveInit (ok : World → Choice → Bool) (n : Nat) (as : List Choice) : Option World :=
  drive step .tau ok n init as

theorem reachable_of_drive {n : Nat} {as : List Choice} {p : World → Bool}
    (h : (driveInit (fun _ _ => true) n as).any p = true) : ∃ w, w.Reachable ∧ p w = true := by
  obtain ⟨w, hr, hp⟩ := exists_run_of_drive h
  exact ⟨w, hr.mono fun _ _ _ => trivial, hp⟩

/-- The coroutine that is about to make a step satisfies `g`. -/
def coOk (g : Side → Local → Choice → Bool) (w : World) (ch : Choice) : Bool :=
  match ch, w.sh.callCxt with
  | .dnsDone _, _ => true
  | _, none => true
  | ch, some x =>
      match w.clients x.client with
      | none => true
      | some cl => g x.side ⟨x.client, cl, w.sh⟩ ch

/-- The choice of a completed lookup leaves no other step. -/
theorem step_dnsDone {w w' : World} {eid : EventId} (h : w.step (.dnsDone eid) = some w') :
    w.dnsDone eid = some w' := by
  unfold step at h
  split at h
  · exact absurd h (by simp)
  · exact h

/-- `step_cases` for a step that satisfies a condition. -/
theorem step_cases_ok {g : Side → Local → Choice → Bool} {w w' : World} {ch : Choice}
    (hok : w.coOk g ch = true) (h : w.step ch = some w') :
    (∃ eid, w.dnsDone eid = some w') ∨
    (w.sh.callCxt = none ∧ w.mainStep ch = some w') ∨
    ∃ x cl l', w.sh.callCxt = some x ∧ w.clients x.client = some cl ∧
      g x.side ⟨x.client, cl, w.sh⟩ ch = true ∧
      coStep x.side ⟨x.client, cl, w.sh⟩ ch = some l' ∧
      w' = { w.setClient x.client l'.cl with sh := l'.sh } := by
  rcases step_cases h with hdns | hmain | ⟨x, cl, l', hrun, hcl, hl', hw'⟩
  · exact .inl hdns
  · exact .inr (.inl hmain)
  · by_cases hdns : ∃ eid, ch = .dnsDone eid
    · obtain ⟨eid, rfl⟩ := hdns
      exact .inl ⟨eid, step_dnsDone h⟩
    · refine .inr (.inr ⟨x, cl, l', hrun, hcl, ?_, hl', hw'⟩)
      unfold coOk at hok
      split at hok
      · exact absurd ⟨_, rfl⟩ hdns
      · rename_i hnone
        exact absurd (hnone.symm.trans hrun) (by simp)
      · rename_i y _ hsome
        obtain rfl := Option.some.inj (hsome.symm.trans hrun)
        rw [hcl] at hok
        exact hok

/-- What a condition says about a step while coroutine `x` runs. -/
theorem coOk_cases {g : Side → Local → Choice → Bool} {w w' : World} {ch : Choice} {x : Co}
    {cl : Client} (hok : w.coOk g ch = true) (h : w.step ch = some w')
    (hrun : w.sh.callCxt = some x) (hcl : w.clients x.client = some cl) :
    (∃ eid, w.dnsDone eid = some w') ∨
    g x.side ⟨x.client, cl, w.sh⟩ ch = true ∧
      ∃ l', coStep x.side ⟨x.client, cl, w.sh⟩ ch = some l' ∧
        w' = { w.setClient x.client l'.cl with sh := l'.sh } := by
  rcases step_cases_ok hok h with hdns | ⟨hnone, -⟩ | ⟨y, cl', l', hy, hcl', hg, hl', hw'⟩
  · exact .inl hdns
  · exact absurd (hnone.symm.trans hrun) (by simp)
  · obtain rfl := Option.some.inj (hy.symm.trans hrun)
    obtain rfl := Option.some.inj (hcl'.symm.trans hcl)
    exact .inr ⟨hg, l', hl', hw'⟩

theorem dnsDone_callCxt {w w' : World} {eid : EventId} (h : w.dnsDone eid = some w') :
    w'.sh.callCxt = w.sh.callCxt := by
  unfold dnsDone at h
  split at h
  · rw [Option.some.injEq] at h
    exact h ▸ rfl
  · exact absurd h (by simp)

theorem dnsDone_clients {w w' : World} {eid : EventId} (h : w.dnsDone eid = some w') :
    w'.clients = w.clients := by
  unfold dnsDone at h
  split at h
  · rw [Option.some.injEq] at h
    subst h
    rfl
  · exact absurd h (by simp)

/-- Fewer than 2^32 - 2 event ids have been handed out. -/
def idsLeft (w : World) : Bool := w.sh.ev.idMax.toNat + 2 < 2 ^ 32

end World
end HttpProxy
