/-
  HttpProxy.Dispatch.Registration

  What a registration with core/net_pull.c leaves in the table, when `epoll_ctl` may
  fail in any call and the owner of a descriptor does not look at the result of the
  net_pull_del in front of its `close`.

  net_pull_del keeps the entry when `epoll_ctl` fails.  The number is closed and opened
  again; then net_pull_add finds the entry of the old owner, keeps it, and counts it a
  second time (`not_registration_own`).  As long as that does not happen, every entry is
  registered with epoll, so net_pull_add only succeeds where there is none.
-/

import Mathlib.Data.Finset.Card
import HttpProxy.Dispatch.Pull

namespace HttpProxy

open Lib

-- ============================================================================
-- The owners of descriptors
-- ============================================================================

/-- What the owners of descriptors call; `ok` says whether `epoll_ctl` goes through where
    it can. -/
inductive OwnerOp (H : Type) where
  | sysOpen (fd : Fd)
  | add (fd : Fd) (hErr : Option H) (ok : Bool)
  | setHandler (fd : Fd) (rd wr : Bool) (handler : Option H)
  | del (fd : Fd) (ok : Bool)
  | close (fd : Fd) (ok : Bool)

namespace PullModule

variable {H : Type}

/-- `net_pull_del` when `epoll_ctl` may fail in any case. -/
def netPullDelMay (m : PullModule H) (fd : Fd) (ok : Bool) : PullModule H :=
  if ok then m.netPullDel fd else m

/-- `net_pull_del(fd); close(fd);` -/
def delAndClose (m : PullModule H) (fd : Fd) (ok : Bool) : PullModule H :=
  (m.netPullDelMay fd ok).sysClose fd

def ownerStep (m : PullModule H) : OwnerOp H → Option (PullModule H)
  | .sysOpen fd => if (m.fds fd).isSome then none else some (m.sysOpen fd)
  | .add fd hErr ok => some (m.netPullAdd fd hErr ok)
  | .setHandler fd rd wr handler => some (m.netPullSetHandler fd rd wr handler)
  | .del fd ok => some (m.netPullDelMay fd ok)
  | .close fd ok => some (m.delAndClose fd ok)

/-- Whenever `net_pull_add` returns 0, the entry holds what the caller passed. -/
def AddsOwn (m : PullModule H) : Prop :=
  ∀ fd hErr ok, m.epollAdds fd ok = true →
    (m.netPullAdd fd hErr ok).handlers fd =
      some { hErr := hErr.map (m.reg fd), hRead := none, hWrite := none }

/-- `fd_cnt` is the number of entries. -/
def Counted (m : PullModule H) : Prop :=
  ∃ fds : Finset Fd, (∀ fd, fd ∈ fds ↔ (m.handlers fd).isSome = true) ∧ m.fdCnt = fds.card

/-- No number that still has its entry is closed: `epoll_ctl` does not fail in the
    net_pull_del in front of the `close`. -/
def Deletes (m : PullModule H) : OwnerOp H → Prop
  | .close fd ok => (m.handlers fd).isSome = true → ok = true
  | _ => True

/-- Every entry is that of an open descriptor and registered with epoll, and counted. -/
structure Registered (m : PullModule H) : Prop where
  epoll : ∀ fd, (m.handlers fd).isSome = true → m.epoll fd = true
  counted : m.Counted

variable {m m' : PullModule H} {fd : Fd}

-- ============================================================================
-- Counting
-- ============================================================================

theorem Counted.congr (h : m.Counted) (hcnt : m'.fdCnt = m.fdCnt)
    (heq : ∀ fd, (m'.handlers fd).isSome = (m.handlers fd).isSome) : m'.Counted := by
  obtain ⟨fds, hmem, hcard⟩ := h
  refine ⟨fds, fun fd => ?_, hcnt.trans hcard⟩
  rw [hmem, heq]

/-- A new entry. -/
theorem Counted.insert (h : m.Counted) (hnone : m.handlers fd = none)
    (hcnt : m'.fdCnt = m.fdCnt + 1) {e : PullHandlers H}
    (heq : m'.handlers = Function.update m.handlers fd (some e)) : m'.Counted := by
  obtain ⟨fds, hmem, hcard⟩ := h
  have hnot : fd ∉ fds := by
    rw [hmem, hnone]
    simp
  refine ⟨Insert.insert fd fds, fun fd' => ?_, ?_⟩
  · rw [Finset.mem_insert, heq]
    by_cases hfd : fd' = fd
    · simp [hfd]
    · rw [Function.update_of_ne hfd, hmem]
      simp [hfd]
  · rw [Finset.card_insert_of_notMem hnot, hcnt, hcard]
    rfl

/-- An entry is deleted. -/
theorem Counted.erase (h : m.Counted) (hsome : (m.handlers fd).isSome = true)
    (hcnt : m'.fdCnt = m.fdCnt - 1)
    (heq : m'.handlers = Function.update m.handlers fd none) : m'.Counted := by
  obtain ⟨fds, hmem, hcard⟩ := h
  have hin : fd ∈ fds := (hmem fd).mpr hsome
  refine ⟨fds.erase fd, fun fd' => ?_, ?_⟩
  · rw [Finset.mem_erase, heq]
    by_cases hfd : fd' = fd
    · simp [hfd]
    · rw [Function.update_of_ne hfd, hmem]
      simp [hfd]
  · have hone := Finset.card_erase_add_one hin
    omega

/-- One count for two owners is not the number of entries. -/
theorem Counted.not_again (h : m.Counted) (hcnt : m'.fdCnt = m.fdCnt + 1)
    (heq : m'.handlers = m.handlers) : ¬ m'.Counted := by
  rintro ⟨fds', hmem', hcard'⟩
  obtain ⟨fds, hmem, hcard⟩ := h
  have hsame : fds' = fds := by
    ext fd
    rw [hmem', hmem, heq]
  rw [hsame] at hcard'
  omega

-- ============================================================================
-- Steps
-- ============================================================================

theorem registered_init : (init : PullModule H).Registered where
  epoll _ h := absurd h (by simp [init])
  counted := ⟨∅, fun _ => by simp [init], rfl⟩

/-- Where `epoll_ctl` adds a number, there is no entry. -/
theorem Registered.unused (h : m.Registered) {ok : Bool} (hadds : m.epollAdds fd ok = true) :
    m.handlers fd = none := by
  rw [epollAdds, Bool.and_eq_true, Bool.not_eq_true'] at hadds
  cases hfind : m.handlers fd with
  | none => rfl
  | some e =>
      have hreg := h.epoll fd (by rw [hfind]; rfl)
      rw [hreg] at hadds
      exact absurd hadds.2 (by simp)

/-- What `net_pull_add` does for a number without an entry. -/
theorem netPullAdd_new (hErr : Option H) {ok : Bool} (hadds : m.epollAdds fd ok = true)
    (hnone : m.handlers fd = none) :
    (m.netPullAdd fd hErr ok).handlers = Function.update m.handlers fd
        (some { hErr := hErr.map (m.reg fd), hRead := none, hWrite := none }) ∧
      (m.netPullAdd fd hErr ok).epoll = Function.update m.epoll fd true ∧
      (m.netPullAdd fd hErr ok).fdCnt = m.fdCnt + 1 := by
  simp only [netPullAdd, if_pos hadds, hnone, Option.getD_none, and_self]

/-- For a number with an entry `net_pull_add` only counts. -/
theorem netPullAdd_again (hErr : Option H) {ok : Bool} (hadds : m.epollAdds fd ok = true)
    (hsome : (m.handlers fd).isSome = true) :
    (m.netPullAdd fd hErr ok).handlers = m.handlers ∧
      (m.netPullAdd fd hErr ok).fdCnt = m.fdCnt + 1 := by
  obtain ⟨e, hfind⟩ := Option.isSome_iff_exists.mp hsome
  simp only [netPullAdd, if_pos hadds, hfind, Option.getD_some, and_true]
  rw [← hfind, Function.update_eq_self]

/-- What `net_pull_del` does where `epoll_ctl` goes through. -/
theorem netPullDel_entry (hsome : (m.handlers fd).isSome = true) (hreg : m.epoll fd = true) :
    (m.netPullDel fd).handlers = Function.update m.handlers fd none ∧
      (m.netPullDel fd).epoll = Function.update m.epoll fd false ∧
      (m.netPullDel fd).fdCnt = m.fdCnt - 1 := by
  simp only [netPullDel, hsome, hreg, Bool.and_self, if_true, and_self]

theorem netPullDel_none (hnone : m.handlers fd = none) : m.netPullDel fd = m := by
  rw [netPullDel, hnone]
  rfl

theorem Registered.addsOwn (h : m.Registered) : m.AddsOwn := by
  intro fd hErr ok hadds
  rw [(netPullAdd_new hErr hadds (h.unused hadds)).1, Function.update_self]

theorem Registered.add (h : m.Registered) (fd : Fd) (hErr : Option H) (ok : Bool) :
    (m.netPullAdd fd hErr ok).Registered := by
  by_cases hadds : m.epollAdds fd ok = true
  · have hnone := h.unused hadds
    obtain ⟨hhandlers, hepoll, hcnt⟩ := netPullAdd_new hErr hadds hnone
    refine ⟨fun fd' hsome => ?_, h.counted.insert hnone hcnt hhandlers⟩
    rw [hepoll]
    by_cases hfd : fd' = fd
    · rw [hfd, Function.update_self]
    · rw [Function.update_of_ne hfd]
      rw [hhandlers, Function.update_of_ne hfd] at hsome
      exact h.epoll fd' hsome
  · rw [netPullAdd, if_neg hadds]
    exact h

theorem Registered.setHandler (h : m.Registered) (fd : Fd) (rd wr : Bool) (f : Option H) :
    (m.netPullSetHandler fd rd wr f).Registered := by
  rw [netPullSetHandler]
  split
  next => exact h
  next e hfind =>
    have heq : ∀ fd', (Function.update m.handlers fd (some (e.set rd wr (f.map (m.reg fd))))
        fd').isSome = (m.handlers fd').isSome := by
      intro fd'
      by_cases hfd : fd' = fd
      · rw [hfd, Function.update_self, hfind]
        rfl
      · rw [Function.update_of_ne hfd]
    refine ⟨fun fd' hsome => h.epoll fd' ?_, h.counted.congr rfl heq⟩
    rw [← heq]
    exact hsome

/-- With its entry registered, a number is deleted whenever `epoll_ctl` goes through. -/
theorem Registered.del (h : m.Registered) (fd : Fd) :
    (m.netPullDel fd).Registered ∧ (m.netPullDel fd).handlers fd = none := by
  cases hfind : m.handlers fd with
  | none =>
      rw [netPullDel_none hfind]
      exact ⟨h, hfind⟩
  | some e =>
      have hsome : (m.handlers fd).isSome = true := by
        rw [hfind]
        rfl
      obtain ⟨hhandlers, hepoll, hcnt⟩ := netPullDel_entry hsome (h.epoll fd hsome)
      refine ⟨⟨fun fd' hin => ?_, h.counted.erase hsome hcnt hhandlers⟩, ?_⟩
      · rw [hhandlers] at hin
        by_cases hfd : fd' = fd
        · rw [hfd, Function.update_self] at hin
          exact absurd hin (by simp)
        · rw [Function.update_of_ne hfd] at hin
          rw [hepoll, Function.update_of_ne hfd]
          exact h.epoll fd' hin
      · rw [hhandlers, Function.update_self]

theorem Registered.close (h : m.Registered) {ok : Bool} (hok : m.Deletes (.close fd ok)) :
    (m.delAndClose fd ok).Registered := by
  -- behind net_pull_del the number has no entry
  have hdel : (m.netPullDelMay fd ok).Registered ∧ (m.netPullDelMay fd ok).handlers fd = none := by
    cases ok with
    | true => exact h.del fd
    | false =>
        refine ⟨h, ?_⟩
        cases hfind : m.handlers fd with
        | none => exact hfind
        | some e =>
            have hsome : (m.handlers fd).isSome = true := by
              rw [hfind]
              rfl
            exact absurd (hok hsome) (by simp)
  obtain ⟨hreg, hnone⟩ := hdel
  rw [delAndClose]
  generalize m.netPullDelMay fd ok = m₁ at hreg hnone
  refine ⟨fun fd' hsome => ?_, hreg.counted.congr rfl fun _ => rfl⟩
  have hin : (m₁.handlers fd').isSome = true := hsome
  have hne : fd' ≠ fd := by
    rintro rfl
    rw [hnone] at hin
    exact absurd hin (by simp)
  show Function.update m₁.epoll fd false fd' = true
  rw [Function.update_of_ne hne]
  exact hreg.epoll fd' hin

theorem Registered.step (h : m.Registered) {op : OwnerOp H} (hok : m.Deletes op)
    (hs : m.ownerStep op = some m') : m'.Registered := by
  cases op with
  | sysOpen fd =>
      rw [ownerStep, Option.ite_none_left_eq_some, Option.some.injEq] at hs
      rw [← hs.2]
      exact ⟨h.epoll, h.counted⟩
  | add fd hErr ok =>
      rw [← Option.some.inj hs]
      exact h.add fd hErr ok
  | setHandler fd rd wr f =>
      rw [← Option.some.inj hs]
      exact h.setHandler fd rd wr f
  | del fd ok =>
      rw [← Option.some.inj hs, netPullDelMay]
      split
      · exact (h.del fd).1
      · exact h
  | close fd ok =>
      rw [← Option.some.inj hs]
      exact h.close hok

/-- The next owner of a number that was closed with its entry: its registration keeps the
    handlers of the old owner and is counted a second time. -/
theorem Counted.reopened (h : m.Counted) (hsome : (m.handlers fd).isSome = true)
    (hErr : Option H) :
    (((m.delAndClose fd false).sysOpen fd).netPullAdd fd hErr true).handlers = m.handlers ∧
      ¬ (((m.delAndClose fd false).sysOpen fd).netPullAdd fd hErr true).Counted := by
  have hadds : ((m.delAndClose fd false).sysOpen fd).epollAdds fd true = true := by
    simp [epollAdds, delAndClose, netPullDelMay, sysClose, sysOpen]
  obtain ⟨hhandlers, hcnt⟩ := netPullAdd_again hErr hadds hsome
  exact ⟨hhandlers, h.not_again hcnt hhandlers⟩

-- ============================================================================
-- Runs
-- ============================================================================

/-- In every run in which `epoll_ctl` deletes each entry whose number is about to be
    closed, `fd_cnt` is the number of entries and a net_pull_add that returns 0 leaves
    exactly what its caller passed.  The first time it does not, the next owner of the
    number gets the entry of the old one, and `fd_cnt` is off. -/
theorem registration_own (hrun : Run ownerStep Deletes (init : PullModule H) m) :
    m.Counted ∧ m.AddsOwn ∧ ∀ fd hErr, (m.handlers fd).isSome = true →
      (((m.delAndClose fd false).sysOpen fd).netPullAdd fd hErr true).handlers = m.handlers ∧
        ¬ (((m.delAndClose fd false).sysOpen fd).netPullAdd fd hErr true).Counted := by
  have hreg : m.Registered :=
    hrun.invariant Registered registered_init fun _ _ _ hi hok hs => hi.step hok hs
  exact ⟨hreg.counted, hreg.addsOwn, fun fd hErr hsome => hreg.counted.reopened hsome hErr⟩

instance (m : PullModule H) : (op : OwnerOp H) → Decidable (m.Deletes op)
  | .close fd ok => inferInstanceAs (Decidable ((m.handlers fd).isSome = true → ok = true))
  | .sysOpen _ => .isTrue trivial
  | .add _ _ _ => .isTrue trivial
  | .setHandler _ _ _ _ => .isTrue trivial
  | .del _ _ => .isTrue trivial

/-- Descriptor 7 is registered, deleted, closed and opened again. -/
theorem registration_own_again :
    ∃ m : PullModule Nat, Run ownerStep Deletes init m ∧ m.fdCnt = 0 ∧
      (m.fds 7 = some 1 ∧ m.Counted ∧ m.AddsOwn) := by
  have hrun : ∃ m : PullModule Nat,
      Run ownerStep (fun m op => decide (m.Deletes op) = true) init m ∧
      decide (m.fdCnt = 0 ∧ m.fds 7 = some 1) = true :=
    exists_run_of_follow
      [.sysOpen 7, .add 7 (some 1) true, .setHandler 7 true false (some 2), .close 7 true,
        .sysOpen 7] (by decide)
  obtain ⟨m, hm, hp⟩ := hrun
  rw [decide_eq_true_eq] at hp
  have hown := registration_own (hm.mono fun _ _ hok => of_decide_eq_true hok)
  exact ⟨m, hm.mono fun _ _ hok => of_decide_eq_true hok, hp.1, hp.2, hown.1, hown.2.1⟩

/-- Descriptor 7 is registered with the data 1, its net_pull_del fails, it is closed,
    opened and registered with the data 3: the entry has data 1, and the read handler of
    the old owner. -/
theorem not_registration_own :
    ¬ ∀ m : PullModule Nat, Run ownerStep (fun _ _ => True) init m → m.Counted ∧ m.AddsOwn := by
  intro hall
  have hrun : ∃ m : PullModule Nat, Run ownerStep (fun _ _ => true = true) init m ∧
      decide (m.epollAdds 7 true = true ∧
        (m.netPullAdd 7 (some 3) true).handlers 7 =
          some ⟨some ⟨1, 0, some 0⟩, some ⟨2, 1, some 0⟩, none⟩) = true :=
    exists_run_of_follow
      [.sysOpen 7, .add 7 (some 1) true, .setHandler 7 true false (some 2), .close 7 false,
        .sysOpen 7] (by decide)
  obtain ⟨m, hm, hp⟩ := hrun
  rw [decide_eq_true_eq] at hp
  have hown := (hall m (hm.mono fun _ _ _ => trivial)).2 7 (some 3) true hp.1
  rw [hp.2] at hown
  exact absurd hown (by simp)

end PullModule

end HttpProxy
