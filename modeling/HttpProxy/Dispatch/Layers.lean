/-
  HttpProxy.Dispatch.Layers

  HttpProxy.System and HttpProxy.Dispatch model the same functions of core/net_pull.c: the
  one with the handlers the proxy has, the other with any.  `PullModule.Shows` says that the
  two are in the same state, and the lemmas that each function keeps them there.  For whole
  runs of the proxy this is put together in HttpProxy.Dispatch.Served.
-/

import HttpProxy.Dispatch.Pull
import HttpProxy.System.Step

namespace HttpProxy

/-- A handler of the proxy: one that is registered for I/O, or conn_err_handler. -/
inductive PullFn where
  | io (h : Handler)
  | connErr (t : ClientId × ConnIx)

/-- The handlers of an entry, without the numbers and descriptors they remember. -/
def PullHandlers.fns (h : PullHandlers PullFn) : PullKind → Option PullFn :=
  fun k => (h.get k).map (·.handler)

def PullEnt.fns (e : PullEnt) : PullKind → Option PullFn
  | .err => e.err.map .connErr
  | .read => e.rd.map .io
  | .write => e.wr.map .io

/-- The two models of net_pull.c are in the same state. -/
structure PullModule.Shows (m : PullModule PullFn) (net : Net) : Prop where
  table : ∀ fd, (m.handlers fd).map PullHandlers.fns = (net.pullFind fd).map PullEnt.fns
  fdCnt : net.fdCnt = m.fdCnt
  epoll : net.epoll = m.epoll
  fds : ∀ fd, (net.fds fd).isSome = (m.fds fd).isSome

namespace PullModule

variable {m : PullModule PullFn} {net : Net} {fd fd' : Fd}

theorem Shows.isSome (h : m.Shows net) (fd : Fd) :
    (net.pullFind fd).isSome = (m.handlers fd).isSome := by
  rw [← Option.isSome_map (f := PullEnt.fns), ← h.table, Option.isSome_map]

-- ============================================================================
-- Descriptors
-- ============================================================================

theorem Shows.sysOpen (h : m.Shows net) (fd : Fd) (o : FdOwner) :
    (m.sysOpen fd).Shows (net.sysOpen fd o) := by
  refine ⟨h.table, h.fdCnt, h.epoll, fun fd' => ?_⟩
  by_cases hne : fd' = fd
  · simp [PullModule.sysOpen, Net.sysOpen, hne]
  · simp only [PullModule.sysOpen, Net.sysOpen, Function.update_of_ne hne]
    exact h.fds fd'

theorem Shows.sysClose (h : m.Shows net) (fd : Fd) : (m.sysClose fd).Shows (net.sysClose fd) := by
  refine ⟨h.table, h.fdCnt, ?_, fun fd' => ?_⟩
  · show Function.update net.epoll fd false = Function.update m.epoll fd false
    rw [h.epoll]
  · by_cases hne : fd' = fd
    · simp [PullModule.sysClose, Net.sysClose, hne]
    · simp only [PullModule.sysClose, Net.sysClose, Function.update_of_ne hne]
      exact h.fds fd'

-- ============================================================================
-- The table
-- ============================================================================

theorem pullFind_append (net : Net) (e : PullEnt) (hnone : net.pullFind e.fd = none) :
    (net.table ++ [e]).find? (·.fd = fd') = if fd' = e.fd then some e else net.pullFind fd' := by
  rw [List.find?_append]
  split
  · rename_i heq
    subst heq
    rw [show net.table.find? (·.fd = e.fd) = none from hnone]
    simp
  · rename_i hne
    rw [List.find?_singleton, if_neg (by simpa using Ne.symm hne), Option.or_none]
    rfl

/-- For a descriptor that is open and not watched, `epoll_ctl` succeeds or not as it likes. -/
theorem Shows.add (h : m.Shows net) {ok : Bool} (err : Option (ClientId × ConnIx))
    (hopen : (net.fds fd).isSome = true) (hnew : net.epoll fd = false) :
    (m.netPullAdd fd (err.map .connErr) ok).Shows (net.netPullAdd ok fd err) := by
  cases ok with
  | false =>
      rw [netPullAdd, if_neg (by simp [epollAdds])]
      exact h
  | true =>
      have hadds : m.epollAdds fd true = true := by
        rw [epollAdds, ← h.fds, hopen, ← h.epoll, hnew]
        rfl
      rw [netPullAdd, if_pos hadds, Net.netPullAdd, if_pos rfl]
      refine ⟨fun fd' => ?_, by simp [h.fdCnt], by simp [h.epoll], h.fds⟩
      cases hfind : m.handlers fd with
      | some e =>
          have hsome : (net.pullFind fd).isNone = false := by
            rw [Option.isNone_eq_false_iff, h.isSome, hfind]
            rfl
          show Option.map _ (Function.update m.handlers fd (some e) fd') = Option.map _
            (List.find? _ (if (net.pullFind fd).isNone = true then _ else net.table))
          rw [hsome, if_neg Bool.false_ne_true, ← hfind, Function.update_eq_self]
          exact h.table fd'
      | none =>
          have hnone : (net.pullFind fd).isNone = true := by
            rw [← Option.not_isSome, h.isSome, hfind]
            rfl
          show Option.map _ (Function.update m.handlers fd _ fd') = Option.map _
            (List.find? _ (if (net.pullFind fd).isNone = true then _ else net.table))
          rw [if_pos hnone,
            pullFind_append net ⟨fd, none, none, err⟩ (Option.isNone_iff_eq_none.mp hnone)]
          by_cases hne : fd' = fd
          · rw [if_pos hne, hne, Function.update_self]
            rw [Option.map_some, Option.map_some, Option.getD_none]
            congr 1
            funext k
            cases k with
            | err => cases err <;> rfl
            | read => rfl
            | write => rfl
          · rw [Function.update_of_ne hne]
            refine (h.table fd').trans ?_
            exact congrArg (Option.map _) (if_neg hne).symm

theorem pullFind_map (net : Net) (f : PullEnt → PullEnt) (hfd : ∀ e, (f e).fd = e.fd) :
    (net.table.map fun e => if e.fd = fd then f e else e).find? (·.fd = fd') =
      if fd' = fd then (net.pullFind fd).map f else net.pullFind fd' := by
  rw [List.find?_map]
  have hsame : ((fun e : PullEnt => decide (e.fd = fd')) ∘ fun e => if e.fd = fd then f e else e) =
      fun e => decide (e.fd = fd') := by
    funext e
    by_cases he : e.fd = fd
    · simp [he, hfd]
    · simp [he]
  rw [hsame]
  by_cases hne : fd' = fd
  · subst hne
    rw [if_pos rfl]
    show Option.map _ (net.pullFind fd') = _
    cases hfind : net.pullFind fd' with
    | none => rfl
    | some e =>
        have he : e.fd = fd' := by simpa using List.find?_some hfind
        simp [he]
  · rw [if_neg hne]
    show Option.map _ (net.pullFind fd') = _
    cases hfind : net.pullFind fd' with
    | none => rfl
    | some e =>
        have he : e.fd = fd' := by simpa using List.find?_some hfind
        simp [he, hne]

/-- net_pull_set_handler for one direction. -/
theorem Shows.setHandler (h : m.Shows net) (fd : Fd) (d : Dir) (f : Option Handler) :
    (m.netPullSetHandler fd (d = .read) (d = .write) (f.map .io)).Shows
      (net.netPullSetHandler fd d f) := by
  have htable : ∀ fd', (net.netPullSetHandler fd d f).pullFind fd' =
      if fd' = fd then (net.pullFind fd).map (·.set d f) else net.pullFind fd' := by
    intro fd'
    refine pullFind_map net (·.set d f) fun e => ?_
    cases d <;> rfl
  rw [netPullSetHandler]
  cases hfind : m.handlers fd with
  | none =>
      refine ⟨fun fd' => ?_, h.fdCnt, h.epoll, h.fds⟩
      rw [htable]
      by_cases hne : fd' = fd
      · have hnone := h.table fd
        rw [hfind] at hnone
        rw [if_pos hne, hne, hfind, Option.map_eq_none_iff.mp hnone.symm]
        rfl
      · rw [if_neg hne]
        exact h.table fd'
  | some e =>
      refine ⟨fun fd' => ?_, h.fdCnt, h.epoll, h.fds⟩
      rw [htable]
      by_cases hne : fd' = fd
      · obtain ⟨e', he', hfns⟩ : ∃ e', net.pullFind fd = some e' ∧ e'.fns = e.fns := by
          have hsome := h.table fd
          rw [hfind] at hsome
          exact Option.map_eq_some_iff.mp hsome.symm
        rw [if_pos hne, hne, he']
        show Option.map _ (Function.update m.handlers fd _ fd) = _
        rw [Function.update_self, Option.map_some, Option.map_some, Option.map_some]
        congr 1
        funext k
        have hk := congrFun hfns k
        cases d <;> cases k <;> first | exact hk.symm | (cases f <;> rfl)
      · rw [if_neg hne]
        show Option.map _ (Function.update m.handlers fd _ fd') = _
        rw [Function.update_of_ne hne]
        exact h.table fd'

theorem Shows.del (h : m.Shows net) (fd : Fd) : (m.netPullDel fd).Shows (net.netPullDel fd) := by
  rw [netPullDel, Net.netPullDel, h.isSome, ← h.epoll]
  split
  · refine ⟨fun fd' => ?_, by simp [h.fdCnt], by simp [h.epoll], h.fds⟩
    show Option.map _ (Function.update m.handlers fd none fd') =
      Option.map _ ((net.table.filter (·.fd ≠ fd)).find? (·.fd = fd'))
    rw [List.find?_filter]
    by_cases hne : fd' = fd
    · rw [hne, Function.update_self, List.find?_eq_none.mpr]
      · rfl
      · intro e _
        simp
    · rw [Function.update_of_ne hne, h.table, Net.pullFind]
      congr 2
      funext e
      by_cases he : e.fd = fd'
      · simp [he, hne]
      · simp [he]
  · exact h

-- ============================================================================
-- The dispatch loop
-- ============================================================================

/-- `Shows` says nothing of where net_pull_work is. -/
theorem Shows.congr {m' : PullModule PullFn} (h : m.Shows net)
    (hhandlers : m'.handlers = m.handlers)
    (hcnt : m'.fdCnt = m.fdCnt) (hepoll : m'.epoll = m.epoll) (hfds : m'.fds = m.fds) :
    m'.Shows net :=
  ⟨hhandlers ▸ h.table, hcnt ▸ h.fdCnt, hepoll ▸ h.epoll, hfds ▸ h.fds⟩

/-- `World.nextTodo` skips the events that `fetch` skips. -/
theorem Shows.fetch_none {ev : PullEvent} {evs : List PullEvent} (h : m.Shows net)
    (hfind : net.pullFind ev.fd = none) : m.fetch (ev :: evs) = { m with pc := .next evs } := by
  have hnone : m.handlers ev.fd = none := by
    rw [← Option.isNone_iff_eq_none, ← Option.not_isSome, ← h.isSome, hfind]
    rfl
  rw [fetch, hnone]

/-- `World.nextTodo` copies and clears the entry that `fetch` copies and clears. -/
theorem Shows.fetch_some {ev : PullEvent} {evs : List PullEvent} {nh : PullEnt} (h : m.Shows net)
    (hfind : net.pullFind ev.fd = some nh) :
    ∃ e, (m.fetch (ev :: evs)).pc = .due .err ev e evs ∧ e.fns = nh.fns ∧
      (m.fetch (ev :: evs)).Shows
        ((net.netPullSetHandler ev.fd .read none).netPullSetHandler ev.fd .write none) := by
  obtain ⟨e, he, hfns⟩ : ∃ e, m.handlers ev.fd = some e ∧ e.fns = nh.fns := by
    have hsome := h.table ev.fd
    rw [hfind] at hsome
    exact Option.map_eq_some_iff.mp hsome
  have hclear := (h.setHandler ev.fd .read none).setHandler ev.fd .write none
  refine ⟨e, ?_, hfns, hclear.congr ?_ ?_ ?_ ?_⟩
  · rw [fetch, he]
  · simp only [fetch, he, netPullSetHandler, Function.update_self, Function.update_idem]
    rfl
  all_goals simp only [fetch, he, netPullSetHandler, Function.update_self]

end PullModule

end HttpProxy
