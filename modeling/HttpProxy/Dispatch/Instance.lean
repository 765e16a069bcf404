/-
  HttpProxy.Dispatch.Instance

  For which descriptor a handler was registered that net_pull_work calls.  An event is
  looked up by its number alone, so while a batch is being dispatched the number may have
  come to mean another descriptor (`stale_call`).  As long as nothing is registered under
  a number that still stands for an earlier descriptor, in the table or in the rest of
  the batch, every handler meets the descriptor it was registered for (`calls_reach`).
-/

import HttpProxy.Dispatch.Pull

namespace HttpProxy

open Lib

variable {H : Type}

/-- The handler was registered for the descriptor the event was reported for. -/
def PullCall.Reaches (c : PullCall H) : Prop :=
  ∃ i, c.reg.inst = some i ∧ c.ev.inst = some i

/-- The copied entry net_pull_work is at, with its event. -/
def PullPc.copied? : PullPc H → Option (PullEvent × PullHandlers H)
  | .due _ ev nh _ => some (ev, nh)
  | .inside _ ev nh _ => some (ev, nh)
  | _ => none

namespace PullModule

variable {m m' : PullModule H}

/-- Nothing of an earlier descriptor is left under the number `fd`: neither a handler in
    the table nor an event in the rest of the batch. -/
def Fresh (m : PullModule H) (fd : Fd) : Prop :=
  (∀ k r, m.live fd k = some r → r.inst = m.fds fd) ∧
    ∀ ev ∈ m.pc.todo, ev.fd = fd → ev.inst = m.fds fd

/-- A step does not register anything under a number that is not fresh. -/
def Registers (m : PullModule H) : PullOp H → Prop
  | .add fd _ _ => m.Fresh fd
  | .setHandler fd _ _ _ => m.Fresh fd
  | _ => True

instance (m : PullModule H) (fd : Fd) : Decidable (m.Fresh fd) :=
  decidable_of_iff
    ((∀ k ∈ [PullKind.err, .read, .write], (m.live fd k).all (fun r => r.inst = m.fds fd) = true) ∧
      ∀ ev ∈ m.pc.todo, ev.fd = fd → ev.inst = m.fds fd) (by
    have hkinds : ∀ k, k ∈ [PullKind.err, .read, .write] := fun k => by cases k <;> simp
    simp only [Option.all_eq_true, decide_eq_true_eq, Fresh, hkinds, true_implies])

instance (m : PullModule H) (op : PullOp H) : Decidable (m.Registers op) :=
  match op with
  | .add fd _ _ => inferInstanceAs (Decidable (m.Fresh fd))
  | .setHandler fd _ _ _ => inferInstanceAs (Decidable (m.Fresh fd))
  | .sysOpen _ => .isTrue trivial
  | .sysClose _ => .isTrue trivial
  | .del _ => .isTrue trivial
  | .wait _ => .isTrue trivial
  | .next => .isTrue trivial

/-- Where events and handlers of one number meet, they are of one descriptor. -/
structure Meets (m : PullModule H) : Prop where
  /-- epoll only watches open descriptors -/
  watched : ∀ fd, m.epoll fd = true → (m.fds fd).isSome = true
  /-- the handlers of a descriptor epoll watches -/
  entries : ∀ fd k r, m.epoll fd = true → m.live fd k = some r → r.inst = m.fds fd
  /-- the handlers an event of the batch will find -/
  todo : ∀ ev ∈ m.pc.todo, ev.inst.isSome = true ∧
    ∀ k r, m.live ev.fd k = some r → r.inst = ev.inst
  /-- the handlers that are being called -/
  copied : ∀ ev nh, m.pc.copied? = some (ev, nh) → ev.inst.isSome = true ∧
    ∀ k r, nh.get k = some r → r.inst = ev.inst
  calls : ∀ c ∈ m.calls, c.Reaches

theorem meets_init : Meets (init : PullModule H) where
  watched := fun _ h => absurd h (by simp [init])
  entries := fun _ _ _ h => absurd h (by simp [init])
  todo := fun _ h => absurd h List.not_mem_nil
  copied := fun _ _ h => absurd h (by simp [init, PullPc.copied?])
  calls := fun _ h => absurd h List.not_mem_nil

-- ============================================================================
-- Calls
-- ============================================================================

theorem Meets.sysOpen (h : m.Meets) {fd : Fd} (hfree : (m.fds fd).isSome = false) :
    (m.sysOpen fd).Meets := by
  -- a number that is free is not watched
  have hfds : ∀ fd', m.epoll fd' = true → (m.sysOpen fd).fds fd' = m.fds fd' := by
    intro fd' hfd'
    refine Function.update_of_ne ?_ _ _
    rintro rfl
    rw [h.watched fd' hfd'] at hfree
    exact Bool.noConfusion hfree
  refine ⟨fun fd' hfd' => ?_, fun fd' k r hfd' hr => ?_, h.todo, h.copied, h.calls⟩
  · rw [hfds fd' hfd']
    exact h.watched fd' hfd'
  · rw [hfds fd' hfd']
    exact h.entries fd' k r hfd' hr

theorem Meets.sysClose (h : m.Meets) (fd : Fd) : (m.sysClose fd).Meets := by
  have hother : ∀ fd', (m.sysClose fd).epoll fd' = true →
      m.epoll fd' = true ∧ (m.sysClose fd).fds fd' = m.fds fd' := by
    intro fd' hfd'
    by_cases hne : fd' = fd
    · subst hne
      simp [PullModule.sysClose] at hfd'
    · simp only [PullModule.sysClose, Function.update_of_ne hne] at hfd'
      exact ⟨hfd', Function.update_of_ne hne _ _⟩
  refine ⟨fun fd' hfd' => ?_, fun fd' k r hfd' hr => ?_, h.todo, h.copied, h.calls⟩
  · obtain ⟨hold, hfds⟩ := hother fd' hfd'
    rw [hfds]
    exact h.watched fd' hold
  · obtain ⟨hold, hfds⟩ := hother fd' hfd'
    rw [hfds]
    exact h.entries fd' k r hold hr

/-- What is put into the table under a fresh number is of the descriptor that is open. -/
theorem Meets.register (h : m.Meets) {fd : Fd} (hfresh : m.Fresh fd) (hfds : m'.fds = m.fds)
    (hpc : m'.pc = m.pc) (hcalls : m'.calls = m.calls)
    (hepoll : ∀ fd', m'.epoll fd' = true →
      m.epoll fd' = true ∨ fd' = fd ∧ (m.fds fd).isSome = true)
    (hlive : ∀ fd' k r, m'.live fd' k = some r →
      m.live fd' k = some r ∨ fd' = fd ∧ m.Newly fd r) : m'.Meets := by
  refine ⟨fun fd' hfd' => ?_, fun fd' k r hfd' hr => ?_, ?_, ?_, ?_⟩
  · rw [hfds]
    rcases hepoll fd' hfd' with hold | ⟨rfl, hopen⟩
    · exact h.watched fd' hold
    · exact hopen
  · rw [hfds]
    rcases hlive fd' k r hr with hold | ⟨rfl, -, hinst⟩
    · rcases hepoll fd' hfd' with hwatch | ⟨rfl, -⟩
      · exact h.entries fd' k r hwatch hold
      · exact hfresh.1 k r hold
    · exact hinst
  · rw [hpc]
    intro ev hev
    obtain ⟨hsome, hold⟩ := h.todo ev hev
    refine ⟨hsome, fun k r hr => ?_⟩
    rcases hlive ev.fd k r hr with hr | ⟨hfd, -, hinst⟩
    · exact hold k r hr
    · rw [hinst, hfresh.2 ev hev hfd]
  · rw [hpc]
    exact h.copied
  · rw [hcalls]
    exact h.calls

theorem Meets.add (h : m.Meets) {fd : Fd} (hErr : Option H) (ok : Bool) (hfresh : m.Fresh fd) :
    (m.netPullAdd fd hErr ok).Meets := by
  by_cases hadds : m.epollAdds fd ok = true
  · have hopen : (m.fds fd).isSome = true := by
      simp only [epollAdds, Bool.and_eq_true] at hadds
      exact hadds.1.2
    have hframe : (m.netPullAdd fd hErr ok).fds = m.fds ∧ (m.netPullAdd fd hErr ok).pc = m.pc ∧
        (m.netPullAdd fd hErr ok).calls = m.calls ∧
        (m.netPullAdd fd hErr ok).epoll = Function.update m.epoll fd true := by
      rw [netPullAdd, if_pos hadds]
      exact ⟨rfl, rfl, rfl, rfl⟩
    refine h.register hfresh hframe.1 hframe.2.1 hframe.2.2.1 (fun fd' hfd' => ?_)
      fun fd' k r hr => (live_add hr).imp id fun hnew => ⟨hnew.1, hnew.2.2⟩
    rw [hframe.2.2.2] at hfd'
    by_cases hne : fd' = fd
    · exact .inr ⟨hne, hopen⟩
    · rw [Function.update_of_ne hne] at hfd'
      exact .inl hfd'
  · rw [netPullAdd, if_neg hadds]
    exact h

theorem Meets.setHandler (h : m.Meets) {fd : Fd} (rd wr : Bool) (f : Option H)
    (hfresh : m.Fresh fd) : (m.netPullSetHandler fd rd wr f).Meets := by
  have hframe : (m.netPullSetHandler fd rd wr f).fds = m.fds ∧
      (m.netPullSetHandler fd rd wr f).pc = m.pc ∧
      (m.netPullSetHandler fd rd wr f).calls = m.calls ∧
      (m.netPullSetHandler fd rd wr f).epoll = m.epoll := by
    rw [netPullSetHandler]
    cases m.handlers fd <;> exact ⟨rfl, rfl, rfl, rfl⟩
  refine h.register hfresh hframe.1 hframe.2.1 hframe.2.2.1 (fun fd' hfd' => ?_)
    fun fd' k r hr => ?_
  · rw [hframe.2.2.2] at hfd'
    exact .inl hfd'
  · rw [live_setHandler] at hr
    split at hr
    · rename_i hset
      obtain ⟨_, -, rfl⟩ := Option.map_eq_some_iff.mp hr
      exact .inr ⟨hset.1, rfl, rfl⟩
    · exact .inl hr

theorem Meets.del (h : m.Meets) (fd : Fd) : (m.netPullDel fd).Meets := by
  have hframe : (m.netPullDel fd).fds = m.fds ∧ (m.netPullDel fd).pc = m.pc ∧
      (m.netPullDel fd).calls = m.calls ∧
      ∀ fd', (m.netPullDel fd).epoll fd' = true → m.epoll fd' = true := by
    rw [netPullDel]
    split
    · refine ⟨rfl, rfl, rfl, fun fd' hfd' => ?_⟩
      by_cases hne : fd' = fd
      · simp [hne] at hfd'
      · simp only [Function.update_of_ne hne] at hfd'
        exact hfd'
    · exact ⟨rfl, rfl, rfl, fun _ hfd' => hfd'⟩
  obtain ⟨hfds, hpc, hcalls, hepoll⟩ := hframe
  refine ⟨fun fd' hfd' => ?_, fun fd' k r hfd' hr => ?_, ?_, ?_, ?_⟩
  · rw [hfds]
    exact h.watched fd' (hepoll fd' hfd')
  · rw [hfds]
    exact h.entries fd' k r (hepoll fd' hfd') (live_del hr)
  · rw [hpc]
    intro ev hev
    exact ⟨(h.todo ev hev).1, fun k r hr => (h.todo ev hev).2 k r (live_del hr)⟩
  · rw [hpc]
    exact h.copied
  · rw [hcalls]
    exact h.calls

theorem Meets.wait (h : m.Meets) {evs : List (Fd × Bool)} (hs : m.epollWait evs = some m') :
    m'.Meets := by
  simp only [epollWait, Option.ite_none_right_eq_some, Option.some.injEq] at hs
  obtain ⟨⟨-, hwatched⟩, rfl⟩ := hs
  refine ⟨h.watched, h.entries, fun ev hev => ?_,
    fun _ _ hc => absurd hc (by simp [PullPc.copied?]),
    h.calls⟩
  obtain ⟨x, hx, rfl⟩ := List.mem_map.mp hev
  exact ⟨h.watched x.1 (hwatched x hx), fun k r hr => h.entries x.1 k r (hwatched x hx) hr⟩

-- ============================================================================
-- The dispatch loop
-- ============================================================================

theorem chosen_get {k : PullKind} {ev : PullEvent} {nh : PullHandlers H} {r : Reg H}
    (h : chosen k ev nh = some r) : nh.get k = some r := by
  cases k with
  | err =>
      rw [chosen, Option.ite_none_right_eq_some] at h
      exact h.2
  | read => exact h
  | write => exact h

theorem after_todo (k : PullKind) (ev : PullEvent) (nh : PullHandlers H) (evs : List PullEvent) :
    (after ev nh evs k).todo = evs := by
  cases k <;> rfl

theorem after_copied {k : PullKind} {ev ev' : PullEvent} {nh nh' : PullHandlers H}
    {evs : List PullEvent} (h : (after ev nh evs k).copied? = some (ev', nh')) :
    (ev', nh') = (ev, nh) := by
  cases k with
  | err => exact (Option.some.inj h).symm
  | read => exact (Option.some.inj h).symm
  | write => exact absurd h (by simp [after, PullPc.copied?])

/-- net_pull_work goes on within an event. -/
theorem Meets.goOn (h : m.Meets) {k : PullKind} {ev : PullEvent} {nh : PullHandlers H}
    {evs : List PullEvent} (htodo : m.pc.todo = evs) (hcopied : m.pc.copied? = some (ev, nh)) :
    Meets { m with pc := after ev nh evs k } where
  watched := h.watched
  entries := h.entries
  todo := by
    rw [after_todo, ← htodo]
    exact h.todo
  copied := by
    intro ev' nh' hc
    obtain ⟨rfl, rfl⟩ := Prod.mk.inj (after_copied hc)
    exact h.copied ev' nh' hcopied
  calls := h.calls

/-- net_pull_work drops events. -/
theorem Meets.skip (h : m.Meets) (pc : PullPc H) (hcopied : pc.copied? = none)
    (hsub : ∀ ev ∈ pc.todo, ev ∈ m.pc.todo) : Meets { m with pc } where
  watched := h.watched
  entries := h.entries
  todo := fun ev hev => h.todo ev (hsub ev hev)
  copied := by
    intro ev nh hc
    rw [hcopied] at hc
    exact absurd hc (by simp)
  calls := h.calls

theorem Meets.fetch (h : m.Meets) {evs : List PullEvent} (htodo : m.pc.todo = evs) :
    (m.fetch evs).Meets := by
  cases evs with
  | nil => exact h.skip .outside rfl fun ev hev => absurd hev List.not_mem_nil
  | cons ev evs =>
      have hsub : ∀ ev' ∈ evs, ev' ∈ m.pc.todo := by
        intro ev' hev'
        rw [htodo]
        exact List.mem_cons_of_mem _ hev'
      have hev : ev ∈ m.pc.todo := by
        rw [htodo]
        exact List.mem_cons_self
      rw [PullModule.fetch]
      cases hfind : m.handlers ev.fd with
      | none => exact h.skip (.next evs) rfl hsub
      | some e =>
          refine ⟨h.watched, fun fd k r hfd hr => ?_, fun ev' hev' => ?_, fun ev' nh hc => ?_,
            h.calls⟩
          · exact h.entries fd k r hfd (live_clear hfind hr).1
          · obtain ⟨hsome, hold⟩ := h.todo ev' (hsub ev' hev')
            exact ⟨hsome, fun k r hr => hold k r (live_clear hfind hr).1⟩
          · obtain ⟨rfl, rfl⟩ := Prod.mk.inj (Option.some.inj hc)
            obtain ⟨hsome, hold⟩ := h.todo ev hev
            refine ⟨hsome, fun k r hr => hold k r ?_⟩
            rw [live, hfind]
            exact hr

theorem Meets.call (h : m.Meets) {k : PullKind} {ev : PullEvent} {nh : PullHandlers H}
    {evs : List PullEvent} (hpc : m.pc = .due k ev nh evs) : (m.call k ev nh evs).Meets := by
  have htodo : m.pc.todo = evs := by rw [hpc]; rfl
  have hcopied : m.pc.copied? = some (ev, nh) := by rw [hpc]; rfl
  rw [PullModule.call]
  cases hchosen : chosen k ev nh with
  | none => exact h.goOn htodo hcopied
  | some r =>
      refine ⟨h.watched, h.entries, ?_, ?_, ?_⟩
      · show ∀ ev ∈ evs, _
        rw [← htodo]
        exact h.todo
      · intro ev' nh' hc
        have hsame : some (ev, nh) = some (ev', nh') := hc
        exact h.copied ev' nh' (hcopied.trans hsame)
      · intro c hc
        rcases List.mem_append.mp hc with hc | hc
        · exact h.calls c hc
        · rw [List.mem_singleton] at hc
          obtain ⟨hsome, hold⟩ := h.copied ev nh hcopied
          obtain ⟨i, hi⟩ := Option.isSome_iff_exists.mp hsome
          rw [hc]
          exact ⟨i, (hold k r (chosen_get hchosen)).trans hi, hi⟩

theorem Meets.work (h : m.Meets) (hs : m.work = some m') : m'.Meets := by
  rw [PullModule.work] at hs
  cases hpc : m.pc with
  | outside => simp [hpc] at hs
  | next evs =>
      simp only [hpc, Option.some.injEq] at hs
      subst hs
      exact h.fetch (by rw [hpc]; rfl)
  | due k ev nh evs =>
      simp only [hpc, Option.some.injEq] at hs
      subst hs
      exact h.call hpc
  | inside k ev nh evs =>
      simp only [hpc, Option.some.injEq] at hs
      subst hs
      exact h.goOn (by rw [hpc]; rfl) (by rw [hpc]; rfl)

/-- Every step that registers only under fresh numbers keeps events and handlers together. -/
theorem Meets.step {op : PullOp H} (h : m.Meets) (hok : m.Registers op)
    (hs : m.step op = some m') : m'.Meets := by
  cases step_took hs with
  | sysOpen hfree => exact h.sysOpen (by simpa using hfree)
  | sysClose => exact h.sysClose _
  | add => exact h.add _ _ hok
  | setHandler => exact h.setHandler _ _ _ hok
  | del => exact h.del _
  | wait _ hwait => exact h.wait hwait
  | next hwork => exact h.work hwork

-- ============================================================================
-- Events and their descriptors
-- ============================================================================

/-- In every run in which nothing is registered under a number that still stands for an
    earlier descriptor, the handlers that are called for an event were registered for the
    descriptor it was reported for. -/
theorem calls_reach (h : Run step Registers (init : PullModule H) m) : ∀ c ∈ m.calls, c.Reaches :=
  (h.invariant Meets meets_init fun _ _ _ hi hok hs => hi.step hok hs).calls

/-- Descriptors 7 and 8 are reported in one batch.  The handler of 7 closes 8 and opens
    another descriptor, which is given the number 9. -/
theorem calls_reach_nine :
    ∃ m : PullModule Nat, Run step Registers init m ∧ m.calls.length = 1 ∧
      m.pc = .next [] ∧ ∀ c ∈ m.calls, c.Reaches := by
  have hrun : ∃ m : PullModule Nat, Run step (fun m op => decide (Registers m op) = true) init m ∧
      (m.calls.length = 1 ∧ m.pc = .next [] : Bool) = true :=
    exists_run_of_follow
      [.sysOpen 7, .add 7 (some 1) true, .setHandler 7 true false (some 2), .sysOpen 8,
        .add 8 (some 3) true, .setHandler 8 true false (some 4), .wait [(7, false), (8, true)],
        .next, .next, .next, .del 8, .sysClose 8, .sysOpen 9, .add 9 (some 5) true,
        .setHandler 9 true false (some 6), .next, .next, .next] (by decide)
  obtain ⟨m, hm, hp⟩ := hrun
  rw [decide_eq_true_eq] at hp
  have hreg : Run step Registers init m := hm.mono fun _ _ hok => of_decide_eq_true hok
  exact ⟨m, hreg, hp.1, hp.2, calls_reach hreg⟩

/-- The other descriptor is given the number 8: the error event of the descriptor that was
    closed calls the handlers of the new one. -/
theorem stale_call : ∃ m : PullModule Nat, m.Reachable ∧ ¬ ∀ c ∈ m.calls, c.Reaches := by
  have hrun : ∃ m : PullModule Nat, Run step (fun _ _ => true = true) init m ∧
      decide (⟨⟨8, true, some 1⟩, .err, ⟨5, 4, some 2⟩⟩ ∈ m.calls) = true :=
    exists_run_of_follow
      [.sysOpen 7, .add 7 (some 1) true, .setHandler 7 true false (some 2), .sysOpen 8,
        .add 8 (some 3) true, .setHandler 8 true false (some 4), .wait [(7, false), (8, true)],
        .next, .next, .next, .del 8, .sysClose 8, .sysOpen 8, .add 8 (some 5) true,
        .setHandler 8 true false (some 6), .next, .next, .next, .next] (by decide)
  obtain ⟨m, hm, hmem⟩ := hrun
  rw [decide_eq_true_eq] at hmem
  refine ⟨m, hm.mono fun _ _ _ => trivial, fun hall => ?_⟩
  obtain ⟨i, hreg, hev⟩ := hall _ hmem
  exact absurd ((Option.some.inj hreg).trans (Option.some.inj hev).symm) (by decide)

end PullModule

end HttpProxy
