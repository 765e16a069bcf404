/-
  HttpProxy.Dispatch.OneShot

  Read and write handlers are called once for each time they are registered, and
  what a handler registers for the descriptor of the very event it was called for is
  left to a later event.

  net_pull_work takes the handlers of an entry out of the table before it calls any.
  So a registration is in the table, or among the handlers net_pull_work still has to
  call for the event at hand, or it has been called; it only ever goes on from one to
  the next (`Once`).
-/

import HttpProxy.Dispatch.Pull

namespace HttpProxy

open Lib

-- ============================================================================
-- Registrations
-- ============================================================================

/-- A registration of a read or write handler: which of the two, and the number of the
    call that made it. -/
abbrev RegId := PullKind × Nat

variable {H : Type}

/-- A handler of a copied entry, as a registration. -/
def PullHandlers.ids (h : PullHandlers H) (k : PullKind) : List RegId :=
  ((h.get k).map fun r => (k, r.no)).toList

/-- The registrations net_pull_work still has to call for the event at hand. -/
def PullPc.left : PullPc H → List RegId
  | .outside => []
  | .next _ => []
  | .due .err _ nh _ => nh.ids .read ++ nh.ids .write
  | .inside .err _ nh _ => nh.ids .read ++ nh.ids .write
  | .due .read _ nh _ => nh.ids .read ++ nh.ids .write
  | .inside .read _ nh _ => nh.ids .write
  | .due .write _ nh _ => nh.ids .write
  | .inside .write _ _ _ => []

namespace PullModule

variable {m m' : PullModule H}

/-- The registration a call of a handler used up. -/
def called? (c : PullCall H) : Option RegId :=
  if c.kind = .err then none else some (c.kind, c.reg.no)

/-- The registrations of read and write handlers that have been called, in order. -/
def called (m : PullModule H) : List RegId := m.calls.filterMap called?

/-- The registrations that have left the table for good. -/
def spent (m : PullModule H) : List RegId := m.called ++ m.pc.left

/-- Every registration is in one place. -/
structure Once (m : PullModule H) : Prop where
  nodup : m.spent.Nodup
  old : ∀ x ∈ m.spent, x.2 < m.nreg
  new : ∀ fd k r, k ≠ .err → m.live fd k = some r → r.no < m.nreg ∧ (k, r.no) ∉ m.spent ∧
    ∀ fd' r', m.live fd' k = some r' → r'.no = r.no → fd' = fd

theorem once_init : Once (init : PullModule H) where
  nodup := List.nodup_nil
  old := fun _ hx => absurd hx List.not_mem_nil
  new := fun _ _ _ _ hr => absurd hr (by simp [live, init])

-- ============================================================================
-- Calls
-- ============================================================================

/-- A call that takes nothing into the table but what it registers itself. -/
theorem Once.perform (h : m.Once) (hcalls : m'.calls = m.calls) (hpc : m'.pc.left = m.pc.left)
    (hreg : m.nreg ≤ m'.nreg)
    (hlive : ∀ fd k r, k ≠ .err → m'.live fd k = some r →
      m.live fd k = some r ∨ r.no = m.nreg ∧ m.nreg < m'.nreg)
    (hone : ∀ fd fd' k r r', k ≠ .err → m'.live fd k = some r → m'.live fd' k = some r' →
      r.no = m.nreg → r'.no = m.nreg → fd' = fd) : m'.Once := by
  have hspent : m'.spent = m.spent := by
    rw [spent, spent, called, called, hcalls, hpc]
  refine ⟨hspent ▸ h.nodup, fun x hx => ?_, fun fd k r hk hr => ?_⟩
  · rw [hspent] at hx
    exact Nat.lt_of_lt_of_le (h.old x hx) hreg
  · have hunique : ∀ fd' r', m'.live fd' k = some r' → r'.no = r.no → fd' = fd := by
      intro fd' r' hr' hno
      rcases hlive fd k r hk hr with hold | ⟨hnew, -⟩ <;>
        rcases hlive fd' k r' hk hr' with hold' | ⟨hnew', -⟩
      · exact (h.new fd k r hk hold).2.2 fd' r' hold' hno
      · have hlt := (h.new fd k r hk hold).1
        omega
      · have hlt := (h.new fd' k r' hk hold').1
        omega
      · exact hone fd fd' k r r' hk hr hr' hnew hnew'
    rw [hspent]
    rcases hlive fd k r hk hr with hold | ⟨hnew, hlt⟩
    · obtain ⟨hlt, hmem, -⟩ := h.new fd k r hk hold
      exact ⟨Nat.lt_of_lt_of_le hlt hreg, hmem, hunique⟩
    · refine ⟨hnew ▸ hlt, fun hmem => ?_, hunique⟩
      have hlt' := h.old _ hmem
      simp only [hnew] at hlt'
      omega

/-- A call that registers no read or write handler. -/
theorem Once.quiet (h : m.Once) (hcalls : m'.calls = m.calls) (hpc : m'.pc.left = m.pc.left)
    (hreg : m.nreg ≤ m'.nreg)
    (hlive : ∀ fd k r, k ≠ .err → m'.live fd k = some r → m.live fd k = some r) : m'.Once := by
  refine h.perform hcalls hpc hreg (fun fd k r hk hr => .inl (hlive fd k r hk hr)) ?_
  intro fd fd' k r r' hk hr _ hno _
  have hlt := (h.new fd k r hk (hlive fd k r hk hr)).1
  omega

theorem Once.add (h : m.Once) (fd : Fd) (hErr : Option H) (ok : Bool) :
    (m.netPullAdd fd hErr ok).Once := by
  have hquiet : (m.netPullAdd fd hErr ok).calls = m.calls ∧ (m.netPullAdd fd hErr ok).pc = m.pc ∧
      m.nreg ≤ (m.netPullAdd fd hErr ok).nreg := by
    rw [netPullAdd]
    split
    · exact ⟨rfl, rfl, Nat.le_succ _⟩
    · exact ⟨rfl, rfl, Nat.le_refl _⟩
  refine h.quiet hquiet.1 (congrArg PullPc.left hquiet.2.1) hquiet.2.2 fun fd' k r hk hr => ?_
  rcases live_add hr with hold | ⟨-, herr, -⟩
  · exact hold
  · exact absurd herr hk

theorem Once.del (h : m.Once) (fd : Fd) : (m.netPullDel fd).Once := by
  have hquiet : (m.netPullDel fd).calls = m.calls ∧ (m.netPullDel fd).pc = m.pc ∧
      (m.netPullDel fd).nreg = m.nreg := by
    rw [netPullDel]
    split <;> exact ⟨rfl, rfl, rfl⟩
  exact h.quiet hquiet.1 (congrArg PullPc.left hquiet.2.1) (Nat.le_of_eq hquiet.2.2.symm)
    fun fd' k r _ hr => live_del hr

theorem Once.setHandler (h : m.Once) (fd : Fd) (rd wr : Bool) (f : Option H) :
    (m.netPullSetHandler fd rd wr f).Once := by
  cases hfind : m.handlers fd with
  | none =>
      rw [netPullSetHandler, hfind]
      exact h
  | some e =>
      have hquiet : (m.netPullSetHandler fd rd wr f).calls = m.calls ∧
          (m.netPullSetHandler fd rd wr f).pc = m.pc ∧
          (m.netPullSetHandler fd rd wr f).nreg = m.nreg + 1 := by
        rw [netPullSetHandler, hfind]
        exact ⟨rfl, rfl, rfl⟩
      -- only the entry of `fd` changes, and what is new there has the next number
      have hlive : ∀ fd' k r, (m.netPullSetHandler fd rd wr f).live fd' k = some r →
          m.live fd' k = some r ∨ fd' = fd ∧ r.no = m.nreg := by
        intro fd' k r hr
        rw [live_setHandler] at hr
        split at hr
        · rename_i hset
          obtain ⟨_, -, rfl⟩ := Option.map_eq_some_iff.mp hr
          exact .inr ⟨hset.1, rfl⟩
        · exact .inl hr
      refine h.perform hquiet.1 (congrArg PullPc.left hquiet.2.1) (by omega) ?_ ?_
      · intro fd' k r _ hr
        exact (hlive fd' k r hr).imp id fun hnew => ⟨hnew.2, by omega⟩
      · intro fd₁ fd₂ k r₁ r₂ hk hr₁ hr₂ hno₁ hno₂
        have hfd : ∀ fd' r, (m.netPullSetHandler fd rd wr f).live fd' k = some r →
            r.no = m.nreg → fd' = fd := by
          intro fd' r hr hno
          rcases hlive fd' k r hr with hold | hnew
          · have hlt := (h.new fd' k r hk hold).1
            omega
          · exact hnew.1
        rw [hfd fd₂ r₂ hr₂ hno₂, hfd fd₁ r₁ hr₁ hno₁]

-- ============================================================================
-- The dispatch loop
-- ============================================================================

/-- A step of the loop that moves registrations on, but none out of the table. -/
theorem Once.move (h : m.Once) (hspent : m'.spent = m.spent) (hreg : m'.nreg = m.nreg)
    (hhandlers : m'.handlers = m.handlers) : m'.Once := by
  have hlive : ∀ fd k, m'.live fd k = m.live fd k := by
    intro fd k
    rw [live, live, hhandlers]
  refine ⟨hspent ▸ h.nodup, ?_, ?_⟩
  · rw [hspent, hreg]
    exact h.old
  · intro fd k r hk hr
    rw [hspent, hreg]
    rw [hlive] at hr
    obtain ⟨hlt, hmem, hunique⟩ := h.new fd k r hk hr
    exact ⟨hlt, hmem, fun fd' r' hr' => hunique fd' r' (hlive fd' k ▸ hr')⟩

theorem mem_ids {e : PullHandlers H} {k k' : PullKind} {no : Nat} :
    (k', no) ∈ e.ids k ↔ k' = k ∧ ∃ r, e.get k = some r ∧ r.no = no := by
  simp only [PullHandlers.ids, Option.mem_toList, Option.map_eq_some_iff,
    Prod.mk.injEq]
  constructor
  · rintro ⟨r, hr, hk, hno⟩
    exact ⟨hk.symm, r, hr, hno⟩
  · rintro ⟨hk, r, hr, hno⟩
    exact ⟨r, hr, hk.symm, hno⟩

/-- The handlers of an entry leave the table together. -/
theorem Once.fetch (h : m.Once) {ev : PullEvent} {evs : List PullEvent} {e : PullHandlers H}
    (hleft : m.pc.left = []) (hfind : m.handlers ev.fd = some e) :
    Once { m with
      handlers := Function.update m.handlers ev.fd (some e.clear)
      pc := .due .err ev e evs } := by
  have hspent : m.spent = m.called := by rw [spent, hleft, List.append_nil]
  have htaken : ∀ x ∈ e.ids .read ++ e.ids .write,
      x.1 ≠ .err ∧ ∃ r, m.live ev.fd x.1 = some r ∧ r.no = x.2 := by
    rintro ⟨k, no⟩ hx
    rcases List.mem_append.mp hx with hx | hx
    · obtain ⟨rfl, r, hr, hno⟩ := mem_ids.mp hx
      exact ⟨PullKind.noConfusion, r, by rw [live, hfind]; exact hr, hno⟩
    · obtain ⟨rfl, r, hr, hno⟩ := mem_ids.mp hx
      exact ⟨PullKind.noConfusion, r, by rw [live, hfind]; exact hr, hno⟩
  have hsplit : spent { m with
      handlers := Function.update m.handlers ev.fd (some e.clear)
      pc := .due .err ev e evs } = m.called ++ (e.ids .read ++ e.ids .write) := rfl
  refine ⟨?_, ?_, ?_⟩
  · rw [hsplit, List.nodup_append]
    refine ⟨hspent ▸ h.nodup, ?_, ?_⟩
    · rw [List.nodup_append]
      refine ⟨?_, ?_, ?_⟩
      · rw [PullHandlers.ids]
        cases e.get .read <;> simp
      · rw [PullHandlers.ids]
        cases e.get .write <;> simp
      · rintro ⟨k, no⟩ hx ⟨k', no'⟩ hy heq
        obtain ⟨hk, -⟩ := mem_ids.mp hx
        obtain ⟨hk', -⟩ := mem_ids.mp hy
        have hkind : PullKind.read = .write := by rw [← hk, ← hk', (Prod.mk.inj heq).1]
        exact PullKind.noConfusion hkind
    · rintro x hx y hy rfl
      obtain ⟨hk, r, hr, hno⟩ := htaken x hy
      have hmem := (h.new ev.fd x.1 r hk hr).2.1
      rw [hno, hspent] at hmem
      exact hmem hx
  · intro x hx
    rw [hsplit, List.mem_append] at hx
    rcases hx with hx | hx
    · exact h.old x (hspent ▸ hx)
    · obtain ⟨hk, r, hr, hno⟩ := htaken x hx
      exact hno ▸ (h.new ev.fd x.1 r hk hr).1
  · -- what stays in the table was there, and not under `ev.fd`
    have hstay : ∀ fd k r, k ≠ .err →
        live { m with
          handlers := Function.update m.handlers ev.fd (some e.clear)
          pc := .due .err ev e evs } fd k = some r → fd ≠ ev.fd ∧ m.live fd k = some r := by
      intro fd k r hk hr
      obtain ⟨hold, herr⟩ := live_clear hfind hr
      exact ⟨fun hfd => hk (herr hfd), hold⟩
    intro fd k r hk hr
    obtain ⟨hfd, hold⟩ := hstay fd k r hk hr
    obtain ⟨hlt, hmem, hunique⟩ := h.new fd k r hk hold
    refine ⟨hlt, fun hx => ?_, fun fd' r' hr' hno => hunique fd' r' (hstay fd' k r' hk hr').2 hno⟩
    rw [hsplit, List.mem_append] at hx
    rcases hx with hx | hx
    · exact hmem (hspent ▸ hx)
    · obtain ⟨_, r', hr', hno⟩ := htaken _ hx
      exact hfd (hunique ev.fd r' hr' hno).symm

/-- A handler of the copied entry is called. -/
theorem spent_call {k : PullKind} {ev : PullEvent} {nh : PullHandlers H} {evs : List PullEvent}
    (hpc : m.pc = .due k ev nh evs) : (m.call k ev nh evs).spent = m.spent := by
  rw [call]
  cases hchosen : chosen k ev nh with
  | none =>
      cases k with
      | err => simp only [spent, hpc, after, PullPc.left, called]
      | read =>
          have hnone : nh.get .read = none := hchosen
          simp only [spent, hpc, after, PullPc.left, called, PullHandlers.ids, hnone,
            Option.map_none, Option.toList_none, List.nil_append]
      | write =>
          have hnone : nh.get .write = none := hchosen
          simp only [spent, hpc, after, PullPc.left, called, PullHandlers.ids, hnone,
            Option.map_none, Option.toList_none]
  | some r =>
      cases k with
      | err =>
          simp only [spent, hpc, PullPc.left, called, List.filterMap_append]
          simp [called?]
      | read =>
          have hsome : nh.get .read = some r := hchosen
          simp only [spent, hpc, PullPc.left, called, List.filterMap_append, PullHandlers.ids,
            hsome]
          simp [called?]
      | write =>
          have hsome : nh.get .write = some r := hchosen
          simp only [spent, hpc, PullPc.left, called, List.filterMap_append, PullHandlers.ids,
            hsome]
          simp [called?]

theorem spent_return {k : PullKind} {ev : PullEvent} {nh : PullHandlers H} {evs : List PullEvent}
    (hpc : m.pc = .inside k ev nh evs) : spent { m with pc := after ev nh evs k } = m.spent := by
  cases k <;> simp only [spent, hpc, after, PullPc.left, called]

theorem Once.work (h : m.Once) (hs : m.work = some m') : m'.Once := by
  rw [PullModule.work] at hs
  cases hpc : m.pc with
  | outside => simp [hpc] at hs
  | next evs =>
      simp only [hpc, Option.some.injEq] at hs
      subst hs
      have hleft : m.pc.left = [] := by rw [hpc]; rfl
      cases evs with
      | nil =>
          refine h.move ?_ rfl rfl
          rw [spent, spent, hleft]
          rfl
      | cons ev evs =>
          rw [PullModule.fetch]
          cases hfind : m.handlers ev.fd with
          | none =>
              refine h.move ?_ rfl rfl
              rw [spent, spent, hleft]
              rfl
          | some e => exact h.fetch hleft hfind
  | due k ev nh evs =>
      simp only [hpc, Option.some.injEq] at hs
      subst hs
      refine h.move (spent_call hpc) ?_ ?_
      · rw [call]
        cases chosen k ev nh <;> rfl
      · rw [call]
        cases chosen k ev nh <;> rfl
  | inside k ev nh evs =>
      simp only [hpc, Option.some.injEq] at hs
      subst hs
      exact h.move (spent_return hpc) rfl rfl

/-- Every step keeps the registrations in one place. -/
theorem Once.step {op : PullOp H} (h : m.Once) (hs : m.step op = some m') : m'.Once := by
  cases step_took hs with
  | sysOpen _ => exact h.quiet rfl rfl (Nat.le_refl _) fun _ _ _ _ hr => hr
  | sysClose => exact h.quiet rfl rfl (Nat.le_refl _) fun _ _ _ _ hr => hr
  | add => exact h.add _ _ _
  | setHandler => exact h.setHandler _ _ _ _
  | del => exact h.del _
  | wait hpc hwait =>
      rw [epollWait, Option.ite_none_right_eq_some, Option.some.injEq] at hwait
      rw [← hwait.2]
      refine h.quiet rfl ?_ (Nat.le_refl _) fun _ _ _ _ hr => hr
      rw [hpc]
      rfl
  | next hwork => exact h.work hwork

theorem once_reachable (h : m.Reachable) : m.Once :=
  h.invariant Once once_init fun _ _ _ hi _ hs => hi.step hs

-- ============================================================================
-- Registering again during a dispatch
-- ============================================================================

/-- The steps up to the next event of the batch that leave the `k` handler of `fd` alone:
    no net_pull_set_handler for it, and no net_pull_del of the descriptor. -/
def Keeps (fd : Fd) (k : PullKind) (m : PullModule H) : PullOp H → Prop
  | .setHandler fd' rd wr _ => fd' = fd → k = .read ∧ rd = false ∨ k = .write ∧ wr = false
  | .del fd' => fd' ≠ fd
  | .next => ∀ evs, m.pc ≠ .next evs
  | .wait _ => False
  | _ => True

theorem live_step {fd : Fd} {k : PullKind} {r : Reg H} {op : PullOp H}
    (h : m.live fd k = some r) (hkeeps : Keeps fd k m op) (hs : m.step op = some m') :
    m'.live fd k = some r := by
  cases step_took hs with
  | sysOpen _ => exact h
  | sysClose => exact h
  | add => exact add_live h
  | setHandler =>
      rw [live_setHandler, if_neg]
      · exact h
      · rintro ⟨rfl, hset, -⟩
        rcases hkeeps rfl with ⟨rfl, rfl⟩ | ⟨rfl, rfl⟩ <;> simp at hset
  | del => exact del_live h (Ne.symm hkeeps)
  | wait _ _ => exact absurd hkeeps not_false
  | next hwork =>
      rw [PullModule.work] at hwork
      cases hpc : m.pc with
      | outside => simp [hpc] at hwork
      | next evs => exact absurd hpc (hkeeps evs)
      | due k' ev nh evs =>
          simp only [hpc, Option.some.injEq] at hwork
          rw [← hwork, call]
          cases chosen k' ev nh <;> exact h
      | inside k' ev nh evs =>
          simp only [hpc, Option.some.injEq] at hwork
          rw [← hwork]
          exact h

/-- A handler for a descriptor stays in the table to the end of the event that is being
    dispatched. -/
theorem live_run {fd : Fd} {k : PullKind} {r : Reg H} {m₁ m₂ : PullModule H}
    (h : m₁.live fd k = some r) (hrun : Run step (Keeps fd k) m₁ m₂) : m₂.live fd k = some r :=
  hrun.invariant (fun m : PullModule H => m.live fd k = some r) h
    fun _ _ _ hi hkeeps hs => live_step hi hkeeps hs

/-- After any calls and batches, no registration of a read or write handler has been called
    twice.  And where a handler that runs for an event registers a handler for the descriptor
    of that event, this is in the table, and has not been called, up to the next event of the
    batch, as long as it is not replaced and the descriptor is not deleted. -/
theorem handlers_oneShot (h : m.Reachable) :
    m.called.Nodup ∧
      ∀ k ev nh evs, m.pc = .inside k ev nh evs → (m.handlers ev.fd).isSome = true →
        ∀ rd wr f m₁, m.step (.setHandler ev.fd rd wr (some f)) = some m₁ →
          ∀ d m₂, d = .read ∧ rd = true ∨ d = .write ∧ wr = true →
            Run step (Keeps ev.fd d) m₁ m₂ →
              m₂.live ev.fd d = some (m.reg ev.fd f) ∧ (d, m.nreg) ∉ m₂.called := by
  refine ⟨((List.nodup_append.mp (once_reachable h).nodup).1), ?_⟩
  intro k ev nh evs hpc hentry rd wr f m₁ hs d m₂ hd hrun
  have hreach : m₁.Reachable := .step h trivial hs
  have hkind : d ≠ .err := by
    rcases hd with ⟨rfl, -⟩ | ⟨rfl, -⟩ <;> exact PullKind.noConfusion
  have hlive : m₁.live ev.fd d = some (m.reg ev.fd f) := by
    cases step_took hs with
    | setHandler =>
        rw [live_setHandler, if_pos ⟨rfl, hd, hentry⟩]
        rfl
  have hlive₂ := live_run hlive hrun
  refine ⟨hlive₂, fun hcalled => ?_⟩
  have honce : m₂.Once := once_reachable (hreach.append (hrun.mono fun _ _ _ => trivial))
  exact (honce.new ev.fd d _ hkind hlive₂).2.1 (List.mem_append_left _ hcalled)

/-- The handler of a listening descriptor registers itself again, as conn_accept_handler
    does. -/
theorem handlers_oneShot_accept :
    ∃ m m₁ m₂ : PullModule Nat, m.Reachable ∧ m.called = [(.read, 1)] ∧ m.called.Nodup ∧
      m.step (.setHandler 7 true false (some 1)) = some m₁ ∧
      Run step (Keeps 7 .read) m₁ m₂ ∧ m₂.pc = .next [] ∧
      m₂.live 7 .read = some ⟨1, 2, some 0⟩ ∧ (.read, 2) ∉ m₂.called := by
  have hrun : ∃ m : PullModule Nat, Run step (fun _ _ => true = true) init m ∧
      (m.pc = .inside .read ⟨7, false, some 0⟩ ⟨none, some ⟨1, 1, some 0⟩, none⟩ [] ∧
        m.called = [(.read, 1)] ∧ m.handlers 7 = some ⟨none, none, none⟩ ∧ m.nreg = 2 ∧
        m.fds 7 = some 0 : Bool) = true :=
    exists_run_of_follow
      [.sysOpen 7, .add 7 none true, .setHandler 7 true false (some 1), .wait [(7, false)],
        .next, .next, .next] (by decide)
  obtain ⟨m, hm, hp⟩ := hrun
  rw [decide_eq_true_eq] at hp
  obtain ⟨hpc, hcalled, hentry, hno, hinst⟩ := hp
  have hreach : m.Reachable := hm.mono fun _ _ _ => trivial
  have hset : m.step (.setHandler 7 true false (some 1)) =
      some (m.netPullSetHandler 7 true false (some 1)) := by
    simp [PullModule.step, PullModule.perform, hpc, PullPc.free]
  have hpc₁ : (m.netPullSetHandler 7 true false (some 1)).pc = m.pc := by
    simp only [netPullSetHandler, hentry]
  generalize hm₁ : m.netPullSetHandler 7 true false (some 1) = m₁ at hset hpc₁
  rw [hpc] at hpc₁
  -- the handler returns, and there is no write handler to call
  have hret : m₁.step .next = some { m₁ with
      pc := .due .write ⟨7, false, some 0⟩ ⟨none, some ⟨1, 1, some 0⟩, none⟩ [] } := by
    simp [PullModule.step, PullModule.work, hpc₁, after]
  have hnext : step { m₁ with
      pc := .due .write ⟨7, false, some 0⟩ ⟨none, some ⟨1, 1, some 0⟩, none⟩ [] } .next =
      some { m₁ with pc := .next [] } := by
    simp [PullModule.step, PullModule.work, call, chosen, PullHandlers.get, after]
  have hkeeps : Run step (Keeps 7 .read) m₁ { m₁ with pc := .next [] } := by
    refine .step (.step .start ?_ hret) ?_ hnext
    · intro evs hc
      rw [hpc₁] at hc
      exact absurd hc (by simp)
    · intro evs hc
      exact absurd hc (by simp)
  obtain ⟨hnodup, hkept⟩ := handlers_oneShot hreach
  obtain ⟨hlive, hnot⟩ := hkept _ _ _ _ hpc (by rw [hentry]; rfl) true false 1 m₁ hset .read _
    (.inl ⟨rfl, rfl⟩) hkeeps
  rw [reg, hno, hinst] at hlive
  rw [hno] at hnot
  exact ⟨m, m₁, _, hreach, hcalled, hnodup, hset, hkeeps, rfl, hlive, hnot⟩

end PullModule

end HttpProxy
