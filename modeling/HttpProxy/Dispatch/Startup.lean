/-
  HttpProxy.Dispatch.Startup

  proxy_main before its main loop: net_utils_init and conn_module_init, and
  conn_module_done, which goes through the same array.

  `sfds` is as long as SERVER_MAX_FD says, and conn_module_init does not look at that:
  `tryBind` is `none` where it writes behind the array, and `connModuleDone` where the
  loop for the first negative entry leaves it.  The data of conn_accept_handler is a
  pointer into the array (`StartFn.accept`), set before the entry is written; `Listening`
  says that it leads to the descriptor it is registered for.

  net_pull_init and `signalfd` are taken to have succeeded: where `epoll_create` fails, proxy_main
  runs conn_module_done on an array that is still zero.
-/

import HttpProxy.Dispatch.Layers
import HttpProxy.Dispatch.Registration

namespace HttpProxy

open Lib

def SERVER_MAX_FD : Nat := 32

/-- A handler that is registered before the main loop: dns_notify_handler, or
    conn_accept_handler with `sfds + slot`. -/
inductive StartFn where
  | dns
  | accept (slot : Nat)
deriving DecidableEq

/-- What the system calls do for one address: `socket` fails or returns a descriptor, and
    each of the others succeeds or fails. -/
structure BindSys where
  socket : Option Fd
  setsockopt : Bool
  bind : Bool
  setnonblocking : Bool
  listen : Bool
  epollAdd : Bool

/-- core/net_pull.c, and `sfds` up to `sfd_cnt`. -/
structure Startup where
  pull : PullModule StartFn
  sfds : List Fd

-- ============================================================================
-- The functions
-- ============================================================================

namespace Startup

/-- Before net_utils_init: `opened` are descriptors that are open, none of them watched. -/
def boot (opened : Fd → Option Nat) : Startup where
  pull := { (PullModule.init : PullModule StartFn) with fds := opened }
  sfds := []

/-- `net_utils_init`; `fd` is what `signalfd` returns. -/
def netUtilsInit (s : Startup) (fd : Fd) (epollAdd : Bool) : Startup :=
  let pull := (s.pull.sysOpen fd).netPullAdd fd none epollAdd
  { s with pull := pull.netPullSetHandler fd true false (some .dns) }

/-- All the calls that have to succeed for an address. -/
def binds (rp : AddrInfo) (k : BindSys) : Bool :=
  k.setsockopt && decide (rp.family ≠ .other) && k.bind && k.setnonblocking && k.listen

/-- One turn of the loop of `conn_module_init`. -/
def tryBind (s : Startup) (c : AddrInfo × BindSys) : Option Startup :=
  match c.2.socket with
  | none => some s
  | some fd =>
      let pull := s.pull.sysOpen fd
      if binds c.1 c.2 then
        let pull := pull.netPullAdd fd none c.2.epollAdd
        let pull := pull.netPullSetHandler fd true false (some (.accept s.sfds.length))
        if s.sfds.length < SERVER_MAX_FD then some { pull, sfds := s.sfds ++ [fd] } else none
      -- bind_failed
      else some { s with pull := pull.sysClose fd }

/-- The loop of `conn_module_done` over the server sockets. -/
def connModuleDone (s : Startup) : Option Startup :=
  if s.sfds.length < SERVER_MAX_FD then
    some { s with pull := s.sfds.foldl PullModule.sysClose s.pull }
  else none

/-- The socket of an address for which all of them succeed. -/
def boundSocket (c : AddrInfo × BindSys) : Option Fd :=
  if binds c.1 c.2 then c.2.socket else none

/-- And `epoll_ctl` too. -/
def watchedSocket (c : AddrInfo × BindSys) : Option Fd :=
  if c.2.epollAdd then boundSocket c else none

/-- `socket` returns a number that is not open. -/
def kernelOk (s : Startup) (c : AddrInfo × BindSys) : Bool :=
  c.2.socket.all fun fd => (s.pull.fds fd).isNone

-- ============================================================================
-- Registering one descriptor
-- ============================================================================

/-- A new descriptor is opened, added and given a handler. -/
def register (m : PullModule StartFn) (fd : Fd) (ok : Bool) (f : StartFn) : PullModule StartFn :=
  ((m.sysOpen fd).netPullAdd fd none ok).netPullSetHandler fd true false (some f)

variable {m : PullModule StartFn} {fd fd' : Fd} {ok : Bool} {f : StartFn}

theorem epollAdds_sysOpen (hepoll : m.epoll fd = false) :
    (m.sysOpen fd).epollAdds fd ok = ok := by
  simp [PullModule.epollAdds, PullModule.sysOpen, hepoll]

/-- The table behind it: the entry is there if `epoll_ctl` has succeeded. -/
theorem register_handlers (hnone : m.handlers fd = none) (hepoll : m.epoll fd = false) :
    ∃ r : Reg StartFn, r.handler = f ∧ (register m fd ok f).handlers =
      if ok = true then
        Function.update m.handlers fd (some { hErr := none, hRead := some r, hWrite := none })
      else m.handlers := by
  have hopen : (m.sysOpen fd).handlers fd = none := hnone
  refine ⟨((m.sysOpen fd).netPullAdd fd none ok).reg fd f, rfl, ?_⟩
  rw [register, PullModule.netPullAdd, epollAdds_sysOpen hepoll]
  split
  · simp only [PullModule.netPullSetHandler, hopen, Function.update_self, Option.getD_none,
      Function.update_idem]
    rfl
  · simp only [PullModule.netPullSetHandler, hopen]
    rfl

theorem setHandler_fds_epoll (m : PullModule StartFn) :
    (m.netPullSetHandler fd true false (some f)).fds = m.fds ∧
      (m.netPullSetHandler fd true false (some f)).epoll = m.epoll := by
  rw [PullModule.netPullSetHandler]
  split
  · exact ⟨rfl, rfl⟩
  · exact ⟨rfl, rfl⟩

theorem register_fds : (register m fd ok f).fds = (m.sysOpen fd).fds := by
  rw [register, (setHandler_fds_epoll _).1, PullModule.netPullAdd]
  split
  · rfl
  · rfl

theorem register_epoll (hepoll : m.epoll fd = false) :
    (register m fd ok f).epoll =
      if ok = true then Function.update m.epoll fd true else m.epoll := by
  rw [register, (setHandler_fds_epoll _).2, PullModule.netPullAdd, epollAdds_sysOpen hepoll]
  split
  · rfl
  · rfl

/-- With these two: what is watched has an entry, if that was so. -/
theorem register_watched (hnone : m.handlers fd = none) (hepoll : m.epoll fd = false)
    (h : ∀ fd, m.epoll fd = true → (m.handlers fd).isSome = true)
    (hfd' : (register m fd ok f).epoll fd' = true) :
    ((register m fd ok f).handlers fd').isSome = true := by
  obtain ⟨r, -, hhandlers⟩ := @register_handlers m fd ok f hnone hepoll
  rw [register_epoll hepoll] at hfd'
  rw [hhandlers]
  cases ok with
  | false => exact h fd' hfd'
  | true =>
      by_cases heq : fd' = fd
      · subst heq
        rw [if_pos rfl, Function.update_self]
        rfl
      · rw [if_pos rfl, Function.update_of_ne heq] at hfd' ⊢
        exact h fd' hfd'

theorem sysOpen_fds :
    ((m.sysOpen fd).fds fd').isSome = true ↔ fd' = fd ∨ (m.fds fd').isSome = true := by
  by_cases hfd : fd' = fd
  · subst hfd
    simp [PullModule.sysOpen]
  · simp [PullModule.sysOpen, hfd]

-- ============================================================================
-- The invariant
-- ============================================================================

/-- Behind net_utils_init, which has opened `sig`: the descriptors that are open are those
    that were, `sig` and the server sockets, each socket once; only `sig` and they are in
    the table, the `i`-th with conn_accept_handler and a pointer to the `i`-th entry. -/
structure Listening (opened : Fd → Option Nat) (sig : Fd) (s : Startup) : Prop where
  fds : ∀ fd, (s.pull.fds fd).isSome = true ↔
    (opened fd).isSome = true ∨ fd = sig ∨ fd ∈ s.sfds
  nodup : s.sfds.Nodup
  apart : ∀ fd ∈ s.sfds, opened fd = none ∧ fd ≠ sig
  table : ∀ fd h, s.pull.handlers fd = some h → h.hErr = none ∧ h.hWrite = none ∧
    ∃ r, h.hRead = some r ∧ ((fd = sig ∧ r.handler = .dns) ∨
      ∃ i, s.sfds[i]? = some fd ∧ r.handler = .accept i)
  registered : s.pull.Registered
  watched : ∀ fd, s.pull.epoll fd = true → (s.pull.handlers fd).isSome = true
  room : s.sfds.length ≤ SERVER_MAX_FD

variable {opened : Fd → Option Nat} {sig : Fd} {s s' : Startup} {c : AddrInfo × BindSys}

theorem registered_boot : (boot opened).pull.Registered where
  epoll fd h := absurd h (by simp [boot, PullModule.init])
  counted := ⟨∅, fun fd => by simp [boot, PullModule.init], rfl⟩

theorem registered_register (h : m.Registered) : (register m fd ok f).Registered := by
  have hopen : (m.sysOpen fd).Registered := ⟨h.epoll, h.counted.congr rfl fun _ => rfl⟩
  exact (hopen.add fd none ok).setHandler fd true false (some f)

theorem listening_netUtilsInit (hsig : opened sig = none) (ok : Bool) :
    Listening opened sig (netUtilsInit (boot opened) sig ok) := by
  have hnone : (boot opened).pull.handlers sig = none := rfl
  have hepoll : (boot opened).pull.epoll sig = false := rfl
  obtain ⟨r, hr, hhandlers⟩ := @register_handlers (boot opened).pull sig ok .dns hnone hepoll
  refine ⟨fun fd => ?_, List.nodup_nil, by simp [netUtilsInit, boot], fun fd h hfd => ?_,
    registered_register registered_boot, fun fd hfd => ?_, Nat.zero_le _⟩
  · show ((register (boot opened).pull sig ok .dns).fds fd).isSome = true ↔ _
    rw [register_fds, sysOpen_fds]
    show fd = sig ∨ (opened fd).isSome = true ↔ _ ∨ _ ∨ fd ∈ ([] : List Fd)
    simp [or_comm]
  · have hfd' : (register (boot opened).pull sig ok .dns).handlers fd = some h := hfd
    rw [hhandlers] at hfd'
    split at hfd'
    · by_cases heq : fd = sig
      · subst heq
        rw [Function.update_self] at hfd'
        obtain rfl := Option.some.inj hfd'
        exact ⟨rfl, rfl, r, rfl, .inl ⟨rfl, hr⟩⟩
      · rw [Function.update_of_ne heq] at hfd'
        exact absurd hfd' (by simp [boot, PullModule.init])
    · exact absurd hfd' (by simp [boot, PullModule.init])
  · exact register_watched hnone hepoll (fun fd h => absurd h Bool.false_ne_true) hfd

theorem netUtilsInit_handlers (ok : Bool) (fd : Fd) :
    ((netUtilsInit (boot opened) sig ok).pull.handlers fd).isSome = true ↔
      fd = sig ∧ ok = true := by
  have hnone : (boot opened).pull.handlers sig = none := rfl
  have hepoll : (boot opened).pull.epoll sig = false := rfl
  obtain ⟨r, -, hhandlers⟩ :=
    @register_handlers (boot opened).pull sig ok .dns hnone hepoll
  show ((register (boot opened).pull sig ok .dns).handlers fd).isSome = true ↔ _
  rw [hhandlers]
  cases ok with
  | false => simp [boot, PullModule.init]
  | true =>
      by_cases heq : fd = sig
      · simp [heq]
      · simp [heq, boot, PullModule.init]

-- ============================================================================
-- One address
-- ============================================================================

/-- A descriptor that is not open is none of the sockets, and has no entry. -/
theorem Listening.closed (h : s.Listening opened sig) (hfd : s.pull.fds fd = none) :
    opened fd = none ∧ fd ≠ sig ∧ fd ∉ s.sfds ∧ s.pull.handlers fd = none ∧
      s.pull.epoll fd = false := by
  have hnot : ¬ ((opened fd).isSome = true ∨ fd = sig ∨ fd ∈ s.sfds) := by
    rw [← h.fds, hfd]
    exact Bool.false_ne_true
  obtain ⟨hopened, hsig, hsfds⟩ : ¬ (opened fd).isSome = true ∧ fd ≠ sig ∧ fd ∉ s.sfds := by
    simpa only [not_or] using hnot
  have hnone : s.pull.handlers fd = none := by
    rw [Option.eq_none_iff_forall_ne_some]
    intro e he
    obtain ⟨-, -, r, -, hr⟩ := h.table fd e he
    rcases hr with ⟨heq, -⟩ | ⟨i, hi, -⟩
    · exact hsig heq
    · exact hsfds (List.mem_of_getElem? hi)
  refine ⟨by simpa using hopened, hsig, hsfds, hnone, ?_⟩
  rw [← Bool.not_eq_true]
  intro hepoll
  have hsome := h.watched fd hepoll
  rw [hnone] at hsome
  exact Bool.false_ne_true hsome

/-- All the calls have succeeded. -/
theorem Listening.bound (h : s.Listening opened sig) (hfd : s.pull.fds fd = none)
    (hroom : s.sfds.length < SERVER_MAX_FD) (ok : Bool) :
    Listening opened sig
      ⟨register s.pull fd ok (.accept s.sfds.length), s.sfds ++ [fd]⟩ := by
  obtain ⟨hopened, hsig, hsfds, hnone, hepoll⟩ := h.closed hfd
  obtain ⟨r, hr, hhandlers⟩ :=
    @register_handlers s.pull fd ok (.accept s.sfds.length) hnone hepoll
  refine ⟨fun fd' => ?_, ?_, ?_, fun fd' e he => ?_, registered_register h.registered,
    fun fd' hfd' => register_watched hnone hepoll h.watched hfd', ?_⟩
  · show ((register s.pull fd ok _).fds fd').isSome = true ↔ _ ∨ _ ∨ fd' ∈ s.sfds ++ [fd]
    rw [register_fds, sysOpen_fds, h.fds, List.mem_append, List.mem_singleton]
    constructor
    · rintro (hfd' | hold | hold | hold)
      · exact .inr (.inr (.inr hfd'))
      · exact .inl hold
      · exact .inr (.inl hold)
      · exact .inr (.inr (.inl hold))
    · rintro (hold | hold | hold | hfd')
      · exact .inr (.inl hold)
      · exact .inr (.inr (.inl hold))
      · exact .inr (.inr (.inr hold))
      · exact .inl hfd'
  · exact h.nodup.append (List.nodup_singleton fd) (by simpa using hsfds)
  · intro fd' hmem
    rcases List.mem_append.mp hmem with hold | hnew
    · exact h.apart fd' hold
    · rw [List.mem_singleton.mp hnew]
      exact ⟨hopened, hsig⟩
  · -- the entries that were there keep their places in the array
    have hold (he : s.pull.handlers fd' = some e) : e.hErr = none ∧ e.hWrite = none ∧
        ∃ r, e.hRead = some r ∧ ((fd' = sig ∧ r.handler = .dns) ∨
          ∃ i, (s.sfds ++ [fd])[i]? = some fd' ∧ r.handler = .accept i) := by
      obtain ⟨herr, hwrite, r, hread, hr⟩ := h.table fd' e he
      refine ⟨herr, hwrite, r, hread, hr.imp id ?_⟩
      rintro ⟨i, hi, hri⟩
      have hlt := (List.getElem?_eq_some_iff.mp hi).1
      exact ⟨i, (List.getElem?_append_left hlt).trans hi, hri⟩
    have he' : (register s.pull fd ok (.accept s.sfds.length)).handlers fd' = some e := he
    rw [hhandlers] at he'
    split at he'
    · by_cases heq : fd' = fd
      · subst heq
        rw [Function.update_self] at he'
        obtain rfl := Option.some.inj he'
        refine ⟨rfl, rfl, r, rfl, .inr ⟨s.sfds.length, ?_, hr⟩⟩
        exact List.getElem?_concat_length
      · rw [Function.update_of_ne heq] at he'
        exact hold he'
    · exact hold he'
  · show (s.sfds ++ [fd]).length ≤ _
    rw [List.length_append, List.length_singleton]
    omega

/-- A call has failed, and the socket is closed. -/
theorem Listening.unbound (h : s.Listening opened sig) (hfd : s.pull.fds fd = none) :
    Listening opened sig { s with pull := (s.pull.sysOpen fd).sysClose fd } := by
  obtain ⟨-, -, -, hnone, hepoll⟩ := h.closed hfd
  have hfds : ((s.pull.sysOpen fd).sysClose fd).fds = s.pull.fds := by
    show Function.update (Function.update s.pull.fds fd _) fd none = _
    rw [Function.update_idem, ← hfd, Function.update_eq_self]
  refine ⟨fun fd' => ?_, h.nodup, h.apart, h.table, ⟨fun fd' he => ?_, ?_⟩,
    fun fd' hfd' => ?_, h.room⟩
  · show (((s.pull.sysOpen fd).sysClose fd).fds fd').isSome = true ↔ _
    rw [hfds]
    exact h.fds fd'
  · show Function.update s.pull.epoll fd false fd' = true
    have hne : fd' ≠ fd := by
      rintro rfl
      have hsome : (s.pull.handlers fd').isSome = true := he
      rw [hnone] at hsome
      exact Bool.false_ne_true hsome
    rw [Function.update_of_ne hne]
    exact h.registered.epoll fd' he
  · exact h.registered.counted.congr rfl fun _ => rfl
  · have hclosed : Function.update s.pull.epoll fd false fd' = true := hfd'
    rw [← hepoll, Function.update_eq_self] at hclosed
    exact h.watched fd' hclosed

theorem Listening.tryBind (h : s.Listening opened sig) (hok : s.kernelOk c = true)
    (hs : s.tryBind c = some s') : s'.Listening opened sig := by
  rw [Startup.tryBind] at hs
  cases hsocket : c.2.socket with
  | none =>
      rw [hsocket] at hs
      obtain rfl := Option.some.inj hs
      exact h
  | some fd =>
      have hfd : s.pull.fds fd = none := by
        rw [kernelOk, hsocket] at hok
        exact Option.isNone_iff_eq_none.mp hok
      rw [hsocket] at hs
      simp only at hs
      split at hs
      · obtain ⟨hroom, heq⟩ := Option.ite_none_right_eq_some.mp hs
        obtain rfl := Option.some.inj heq
        exact h.bound hfd hroom c.2.epollAdd
      · obtain rfl := Option.some.inj hs
        exact h.unbound hfd

/-- What it adds to the array and to the table. -/
theorem Listening.tryBind_adds (h : s.Listening opened sig) (hok : s.kernelOk c = true)
    (hs : s.tryBind c = some s') : s'.sfds = s.sfds ++ (boundSocket c).toList ∧
      ∀ fd, (s'.pull.handlers fd).isSome = true ↔
        (s.pull.handlers fd).isSome = true ∨ watchedSocket c = some fd := by
  rw [Startup.tryBind] at hs
  cases hsocket : c.2.socket with
  | none =>
      rw [hsocket] at hs
      obtain rfl := Option.some.inj hs
      simp [watchedSocket, boundSocket, hsocket]
  | some fd =>
      have hfd : s.pull.fds fd = none := by
        rw [kernelOk, hsocket] at hok
        exact Option.isNone_iff_eq_none.mp hok
      obtain ⟨-, -, -, hnone, hepoll⟩ := h.closed hfd
      rw [hsocket] at hs
      simp only at hs
      split at hs
      · next hbinds =>
        obtain ⟨-, heq⟩ := Option.ite_none_right_eq_some.mp hs
        obtain rfl := Option.some.inj heq
        have hbound : boundSocket c = some fd := by rw [boundSocket, if_pos hbinds, hsocket]
        rw [hbound]
        refine ⟨rfl, fun fd' => ?_⟩
        obtain ⟨r, -, hhandlers⟩ :=
          @register_handlers s.pull fd c.2.epollAdd (.accept s.sfds.length) hnone hepoll
        show ((register s.pull fd c.2.epollAdd _).handlers fd').isSome = true ↔ _
        rw [hhandlers, watchedSocket, hbound]
        cases c.2.epollAdd with
        | false => simp
        | true =>
            by_cases heq : fd' = fd
            · subst heq
              simp
            · simp [heq, Ne.symm heq]
      · next hbinds =>
        obtain rfl := Option.some.inj hs
        have hbound : boundSocket c = none := by rw [boundSocket, if_neg hbinds]
        rw [hbound]
        refine ⟨(List.append_nil _).symm, fun fd' => ?_⟩
        rw [watchedSocket, hbound, ite_self]
        simp [PullModule.sysClose, PullModule.sysOpen]

/-- The loop: the invariant, and what it has added in the end. -/
theorem Listening.follow {cs : List (AddrInfo × BindSys)} (h : s.Listening opened sig)
    (hs : follow Startup.tryBind kernelOk s cs = some s') :
    s'.Listening opened sig ∧ s'.sfds = s.sfds ++ cs.filterMap boundSocket ∧
      ∀ fd, (s'.pull.handlers fd).isSome = true ↔
        (s.pull.handlers fd).isSome = true ∨ fd ∈ cs.filterMap watchedSocket := by
  induction cs generalizing s with
  | nil =>
      obtain rfl : s = s' := by simpa [Lib.follow] using hs
      exact ⟨h, (List.append_nil _).symm, by simp⟩
  | cons c cs ih =>
      obtain ⟨hok, s₁, hstep, hrest⟩ := follow_cons hs
      obtain ⟨hsfds₁, htable₁⟩ := h.tryBind_adds hok hstep
      obtain ⟨hlisten, hsfds, htable⟩ := ih (h.tryBind hok hstep) hrest
      refine ⟨hlisten, ?_, fun fd => ?_⟩
      · rw [hsfds, hsfds₁, List.append_assoc, List.filterMap_cons]
        cases boundSocket c with
        | none => rfl
        | some fd => rfl
      · rw [htable, htable₁, or_assoc, List.filterMap_cons]
        cases watchedSocket c with
        | none => simp
        | some fd' => rw [Option.some.injEq, List.mem_cons, @eq_comm _ fd' fd]

/-- It is only the array that has no room. -/
theorem tryBind_none_iff : s.tryBind c = none ↔
    c.2.socket.isSome = true ∧ binds c.1 c.2 = true ∧ ¬ s.sfds.length < SERVER_MAX_FD := by
  rw [tryBind]
  cases c.2.socket with
  | none => simp
  | some fd =>
      cases hbinds : binds c.1 c.2 with
      | false => simp
      | true => simp

-- ============================================================================
-- conn_module_done
-- ============================================================================

theorem foldl_sysClose_fds (l : List Fd) (m : PullModule StartFn) (fd : Fd) :
    ((l.foldl PullModule.sysClose m).fds fd).isSome = true ↔
      (m.fds fd).isSome = true ∧ fd ∉ l := by
  induction l generalizing m with
  | nil => simp
  | cons x l ih =>
      rw [List.foldl_cons, ih]
      by_cases hx : fd = x
      · simp [PullModule.sysClose, hx]
      · simp [PullModule.sysClose, hx]

/-- The server sockets are closed, and nothing else is. -/
theorem Listening.connModuleDone (h : s.Listening opened sig)
    (hs : s.connModuleDone = some s') (fd : Fd) :
    (s'.pull.fds fd).isSome = true ↔ (opened fd).isSome = true ∨ fd = sig := by
  obtain ⟨-, heq⟩ := Option.ite_none_right_eq_some.mp hs
  obtain rfl := Option.some.inj heq
  rw [foldl_sysClose_fds, h.fds]
  constructor
  · rintro ⟨hold | hold | hold, hnot⟩
    · exact .inl hold
    · exact .inr hold
    · exact absurd hold hnot
  · rintro (hold | rfl)
    · refine ⟨.inl hold, fun hmem => ?_⟩
      rw [(h.apart fd hmem).1] at hold
      exact Bool.false_ne_true hold
    · exact ⟨.inr (.inl rfl), fun hmem => (h.apart fd hmem).2 rfl⟩

-- ============================================================================
-- The main loop
-- ============================================================================

/-- A handler with its data followed. -/
def fn (sfds : List Fd) : StartFn → Option PullFn
  | .dns => some (.io .dns)
  | .accept slot => (sfds[slot]?).map fun fd => .io (.accept fd)

/-- The main loop starts with these descriptors and handlers. -/
structure Starts (s : Startup) (net : Net) : Prop where
  table : ∀ fd k, ((s.pull.live fd k).bind fun r => fn s.sfds r.handler) =
    (net.pullFind fd).bind fun e => e.fns k
  fdCnt : s.pull.fdCnt = net.fdCnt
  epoll : s.pull.epoll = net.epoll
  fds : ∀ fd, (s.pull.fds fd).isSome = (net.fds fd).isSome

/-- The descriptors that are open before net_utils_init. -/
def standard : Fd → Option Nat := fun fd => if fd < 4 then some fd else none

theorem not_lt_six {n : Nat} (hlt : ¬ n < 4) (h4 : ¬ n = 4) (h5 : ¬ n = 5) : ¬ n < 6 := by
  omega

/-- With 4 as the descriptor of the signals and one address that is bound to 5, it starts as
    `World.init` does. -/
theorem starts_init (rp : AddrInfo) (hrp : rp.family ≠ .other) :
    ∃ s, tryBind (netUtilsInit (boot standard) World.signalFd true)
        (rp, ⟨some 5, true, true, true, true, true⟩) = some s ∧
      s.sfds = [5] ∧ s.Starts World.init.sh.net := by
  have hbinds : binds rp ⟨some 5, true, true, true, true, true⟩ = true := by
    simp [binds, hrp]
  rw [tryBind]
  simp only [hbinds, if_true]
  refine ⟨_, rfl, rfl, ⟨fun fd k => ?_, rfl, funext fun fd => ?_, fun fd => ?_⟩⟩
  · by_cases h4 : fd = 4
    · subst h4
      cases k <;> rfl
    · by_cases h5 : fd = 5
      · subst h5
        cases k <;> rfl
      · have hleft (a b c d : Option (PullHandlers StartFn)) :
            Function.update (Function.update (Function.update (Function.update
              (fun _ => none) 4 a) 4 b) 5 c) 5 d fd = none := by
          rw [Function.update_of_ne h5, Function.update_of_ne h5, Function.update_of_ne h4,
            Function.update_of_ne h4]
        have hright : World.init.sh.net.pullFind fd = none := by
          rw [Net.pullFind, List.find?_eq_none]
          intro e he
          have hfd : e.fd = 4 ∨ e.fd = 5 := by
            rcases List.mem_cons.mp he with rfl | he
            · exact .inl rfl
            · rw [List.mem_singleton.mp he]
              exact .inr rfl
          rw [decide_eq_true_eq]
          rintro rfl
          exact hfd.elim h4 h5
        rw [hright]
        exact congrArg (fun o : Option (PullHandlers StartFn) =>
          (o.bind (·.get k)).bind fun r => fn [5] r.handler) (hleft _ _ _ _)
  · show Function.update (Function.update (fun _ : Fd => false) 4 true) 5 true fd =
      (decide (fd = 4) || decide (fd = 5))
    by_cases h5 : fd = 5
    · subst h5
      rfl
    · by_cases h4 : fd = 4
      · subst h4
        rfl
      · rw [Function.update_of_ne h5, Function.update_of_ne h4]
        simp [h4, h5]
  · show (Function.update (Function.update standard 4 _) 5 _ fd).isSome =
      (if fd = 4 then some FdOwner.signal else if fd < 6 then some .listen else none).isSome
    by_cases h5 : fd = 5
    · subst h5
      rfl
    · by_cases h4 : fd = 4
      · subst h4
        rfl
      · rw [Function.update_of_ne h5, Function.update_of_ne h4, standard, if_neg h4]
        by_cases hlt : fd < 4
        · have hsix : fd < 6 := Nat.lt_trans hlt (by decide)
          rw [if_pos hlt, if_pos hsix]
          rfl
        · have hsix : ¬ fd < 6 := not_lt_six hlt h4 h5
          rw [if_neg hlt, if_neg hsix]
          rfl

/-- Before the main loop, once net_pull_init and `signalfd` have succeeded: whatever the
    addresses are and whatever the other system calls do, the array has the sockets for which
    all of them succeed, and no other socket is left open.
    Those that `epoll_ctl` takes are in the table, counted and watched, each with a pointer
    to its own entry, and with them the descriptor of the signals.  Only a 33rd socket is
    written behind the array, and with 32 of them conn_module_done reads behind it; with
    fewer it closes them and nothing else. -/
theorem startup_listens {sigOk : Bool} {cs : List (AddrInfo × BindSys)}
    (hsig : opened sig = none)
    (h : follow tryBind kernelOk (netUtilsInit (boot opened) sig sigOk) cs = some s) :
    s.Listening opened sig ∧ s.sfds = cs.filterMap boundSocket ∧
      (∀ fd, (s.pull.handlers fd).isSome = true ↔
        (fd = sig ∧ sigOk = true) ∨ fd ∈ cs.filterMap watchedSocket) ∧
      (∀ c, s.tryBind c = none ↔ c.2.socket.isSome = true ∧ binds c.1 c.2 = true ∧
        s.sfds.length = SERVER_MAX_FD) ∧
      (s.connModuleDone = none ↔ s.sfds.length = SERVER_MAX_FD) ∧
      ∀ s' fd, s.connModuleDone = some s' →
        ((s'.pull.fds fd).isSome = true ↔ (opened fd).isSome = true ∨ fd = sig) := by
  obtain ⟨hlisten, hsfds, htable⟩ := (listening_netUtilsInit hsig sigOk).follow h
  have hroom := hlisten.room
  refine ⟨hlisten, hsfds, fun fd => ?_, fun c => ?_, ?_, fun s' fd hs =>
    hlisten.connModuleDone hs fd⟩
  · rw [htable, netUtilsInit_handlers]
  · rw [tryBind_none_iff]
    constructor
    · rintro ⟨hsocket, hbinds, hfull⟩
      exact ⟨hsocket, hbinds, by omega⟩
    · rintro ⟨hsocket, hbinds, hfull⟩
      exact ⟨hsocket, hbinds, by omega⟩
  · rw [Startup.connModuleDone]
    constructor
    · intro hnone
      by_contra hne
      rw [if_pos (by omega)] at hnone
      exact Option.some_ne_none _ hnone
    · intro hfull
      rw [if_neg (by omega)]

/-- A socket that cannot be bound between two that can. -/
theorem startup_listens_two : ∃ s : Startup, s.sfds = [5, 6] ∧ s.pull.fdCnt = 3 ∧
    s.Listening standard World.signalFd := by
  let cs : List (AddrInfo × BindSys) :=
    [(⟨.inet, []⟩, ⟨some 5, true, true, true, true, true⟩),
      (⟨.inet, []⟩, ⟨some 6, true, false, true, true, true⟩),
      (⟨.inet6, []⟩, ⟨some 6, true, true, true, true, true⟩)]
  have hrun : (follow tryBind kernelOk (netUtilsInit (boot standard) World.signalFd true)
      cs).any (fun s => s.sfds = [5, 6] && s.pull.fdCnt = 3) = true := by
    decide +kernel
  obtain ⟨s, hs, hp⟩ := (Option.any_eq_true _ _).mp hrun
  obtain ⟨hsfds, hcnt⟩ := Bool.and_eq_true_iff.mp hp
  exact ⟨s, of_decide_eq_true hsfds, of_decide_eq_true hcnt, (startup_listens rfl hs).1⟩

end Startup

end HttpProxy
