/-
  HttpProxy.Stream.Wire

  The two connections of a handler as a machine of its own: `Wire.step` answers
  the operations of HttpProxy.Core.ConnIo from scripts of what each socket will
  do, so that a call of conn_io.c, net_http.c or net_handle.c evaluates to one
  result (`Lib.Eval`).

  A script of arrivals is a byte stream with a segmentation: EAGAIN may stand
  anywhere, and the stream ends with the script or with an error.  A script of
  grants says how much every `send` takes.  `Wire.incoming` and `Wire.room`
  forget the segmentation: what can still be received, and how many bytes will
  still be taken.

  `setBuf` has no result where the buffer would leave its bounds
  `0 <= buf_s <= buf_e <= buf_cap`; a program that evaluates has kept them all
  the way.
-/

import HttpProxy.Core.ConnIo
import HttpProxy.Lib.Eval
import Mathlib.Logic.Function.Basic

namespace HttpProxy

open Lib

-- ============================================================================
-- Sockets
-- ============================================================================

/-- What the next `recv` meets: EAGAIN, a segment, or an error. -/
inductive Arrival where
  | block
  | data (b : UInt8) (bs : Bytes)
  | fail
deriving DecidableEq, Repr

/-- What the next `send` meets: EAGAIN, room for `n + 1` bytes, or an error. -/
inductive Grant where
  | block
  | accept (n : Nat)
  | fail
deriving DecidableEq, Repr

/-- A connection with the scripts of its descriptor.  When the arrivals are used up
    the peer has closed the stream; when the grants are used up everything is
    taken. -/
structure Sock where
  stat : ConnStat
  isOpen : Bool
  io : IoBuf
  inp : List Arrival
  out : List Grant
  sent : Bytes

/-- Put what is left of a segment back. -/
def pushData : Bytes → List Arrival → List Arrival
  | [], inp => inp
  | b :: bs, inp => .data b bs :: inp

/-- Put what is left of a grant back. -/
def pushAccept : Nat → List Grant → List Grant
  | 0, out => out
  | n + 1, out => .accept n :: out

namespace Sock

/-- `recv(fd, buf, len, 0)` -/
def recv (s : Sock) (len : Nat) : SysRes × Sock :=
  if !s.isOpen then (.err, s)
  else if len = 0 then (.zero, s)
  else
    match s.inp with
    | [] => (.zero, s)
    | .block :: inp => (.again, { s with inp })
    | .fail :: _ => (.err, s)
    | .data b bs :: inp =>
        (.ok ((b :: bs).take len), { s with inp := pushData ((b :: bs).drop len) inp })

/-- `send(fd, buf, len, 0)` -/
def send (s : Sock) (data : Bytes) : SysRes × Sock :=
  if !s.isOpen then (.err, s)
  else if data.isEmpty then (.zero, s)
  else
    match s.out with
    | [] => (.ok data, { s with sent := s.sent ++ data })
    | .block :: out => (.again, { s with out })
    | .fail :: _ => (.err, s)
    | .accept n :: out =>
        (.ok (data.take (n + 1)), { s with
          out := pushAccept (n + 1 - data.length) out
          sent := s.sent ++ data.take (n + 1) })

def sys (s : Sock) : SysReq → SysRes × Sock
  | .recv len => s.recv len
  | .send data => s.send data

/-- `conn_close` -/
def close (s : Sock) : Sock :=
  if s.stat = .closed then s else { s with stat := .closed, isOpen := false }

/-- `0 <= buf_s <= buf_e <= buf_cap` -/
def Ok (s : Sock) : Prop :=
  s.io.bufS ≤ s.io.buf.length ∧ s.io.buf.length ≤ CONN_IOBUF_SIZE

end Sock

-- ============================================================================
-- The machine
-- ============================================================================

structure Wire where
  mainStat : MainStat
  sock : Role → Sock

def Role.other : Role → Role
  | .client => .server
  | .server => .client

@[simp] theorem Role.other_ne (r : Role) : r.other ≠ r := by
  cases r <;> decide

@[simp] theorem Role.ne_other (r : Role) : r ≠ r.other := r.other_ne.symm

namespace Wire

def set (w : Wire) (r : Role) (s : Sock) : Wire :=
  { w with sock := Function.update w.sock r s }

@[simp] theorem set_mainStat (w : Wire) (r : Role) (s : Sock) :
    (w.set r s).mainStat = w.mainStat := rfl

@[simp] theorem set_sock_self (w : Wire) (r : Role) (s : Sock) : (w.set r s).sock r = s := by
  simp [set]

theorem set_sock_of_ne (w : Wire) {r r' : Role} (s : Sock) (h : r' ≠ r) :
    (w.set r s).sock r' = w.sock r' := by
  simp [set, h]

@[simp] theorem set_sock_other (w : Wire) (r : Role) (s : Sock) :
    (w.set r s).sock r.other = w.sock r.other :=
  w.set_sock_of_ne s r.other_ne

@[simp] theorem set_other_sock (w : Wire) (r : Role) (s : Sock) :
    (w.set r.other s).sock r = w.sock r :=
  w.set_sock_of_ne s r.ne_other

@[simp] theorem set_set (w : Wire) (r : Role) (s s' : Sock) :
    (w.set r s).set r s' = w.set r s' := by
  simp [set]

@[simp] theorem set_self (w : Wire) (r : Role) : w.set r (w.sock r) = w := by
  simp [set]

/-- Answer one operation. -/
def step : Machine IoOp IoOp.Res Wire
  | .mainStat, w => some (w.mainStat, w)
  | .stat r, w => some ((w.sock r).stat, w)
  | .getBuf r, w => some ((w.sock r).io, w)
  | .setBuf r io, w =>
      if io.bufS ≤ io.buf.length ∧ io.buf.length ≤ CONN_IOBUF_SIZE then
        some ((), w.set r { w.sock r with io })
      else none
  | .sys r q, w => some (((w.sock r).sys q).1, w.set r ((w.sock r).sys q).2)
  | .yield _ _, w => some ((0 : Int), w)
  | .close r, w => some ((), w.set r (w.sock r).close)
  | .mark _, w => some ((), w)
  | .log _, w => some ((), w)
  | .ub, _ => none

/-- Both buffers are within their bounds. -/
def Ok (w : Wire) : Prop := ∀ r, (w.sock r).Ok

end Wire

/-- `p`, run on the two connections of `w`, returns `a`. -/
abbrev Evals {α : Type} (p : Io α) (w : Wire) (a : α) (w' : Wire) : Prop :=
  Eval Wire.step p w a w'

-- ============================================================================
-- Symbolic execution
-- ============================================================================

section

variable {α : Type} {w w' : Wire} {r : Role} {a : α}

theorem evals_call_iff {o : IoOp} {k : o.Res → Io α} {x : o.Res} {w₁ : Wire}
    (h : Wire.step o w = some (x, w₁)) : Evals (.call o k) w a w' ↔ Evals (k x) w₁ a w' :=
  Eval.call_iff h

@[simp] theorem evals_ret {b : α} : Evals (.ret b) w a w' ↔ a = b ∧ w' = w := by
  refine ⟨Eval.of_ret, ?_⟩
  rintro ⟨rfl, rfl⟩
  exact .ret a w'

@[simp] theorem evals_mainStat {k : MainStat → Io α} :
    Evals (.call .mainStat k) w a w' ↔ Evals (k w.mainStat) w a w' :=
  evals_call_iff rfl

@[simp] theorem evals_stat {k : ConnStat → Io α} :
    Evals (.call (.stat r) k) w a w' ↔ Evals (k (w.sock r).stat) w a w' :=
  evals_call_iff rfl

@[simp] theorem evals_getBuf {k : IoBuf → Io α} :
    Evals (.call (.getBuf r) k) w a w' ↔ Evals (k (w.sock r).io) w a w' :=
  evals_call_iff rfl

@[simp] theorem evals_setBuf {io : IoBuf} {k : Unit → Io α} :
    Evals (.call (.setBuf r io) k) w a w' ↔
      (io.bufS ≤ io.buf.length ∧ io.buf.length ≤ CONN_IOBUF_SIZE) ∧
        Evals (k ()) (w.set r { w.sock r with io }) a w' := by
  by_cases hio : io.bufS ≤ io.buf.length ∧ io.buf.length ≤ CONN_IOBUF_SIZE
  · have hstep : Wire.step (.setBuf r io) w = some ((), w.set r { w.sock r with io }) :=
      if_pos hio
    simp [evals_call_iff hstep, hio]
  · refine ⟨fun h => ?_, fun h => absurd h.1 hio⟩
    obtain ⟨x, w₁, hstep, _⟩ := h.of_call
    simp [Wire.step, hio] at hstep

@[simp] theorem evals_sys {q : SysReq} {k : SysRes → Io α} :
    Evals (.call (.sys r q) k) w a w' ↔
      Evals (k ((w.sock r).sys q).1) (w.set r ((w.sock r).sys q).2) a w' :=
  evals_call_iff rfl

@[simp] theorem evals_yield {d : Dir} {k : Int → Io α} :
    Evals (.call (.yield r d) k) w a w' ↔ Evals (k 0) w a w' :=
  evals_call_iff rfl

@[simp] theorem evals_close {k : Unit → Io α} :
    Evals (.call (.close r) k) w a w' ↔ Evals (k ()) (w.set r (w.sock r).close) a w' :=
  evals_call_iff rfl

@[simp] theorem evals_mark {x : Ans} {k : Unit → Io α} :
    Evals (.call (.mark x) k) w a w' ↔ Evals (k ()) w a w' :=
  evals_call_iff rfl

@[simp] theorem evals_log {size : Int} {k : Unit → Io α} :
    Evals (.call (.log size) k) w a w' ↔ Evals (k ()) w a w' :=
  evals_call_iff rfl

@[simp] theorem not_evals_ub {k : Empty → Io α} : ¬ Evals (.call .ub k) w a w' := by
  intro h
  obtain ⟨x, _⟩ := h.of_call
  exact nomatch x

end

-- ============================================================================
-- Buffers stay within their bounds
-- ============================================================================

@[simp] theorem Sock.sys_io (s : Sock) (q : SysReq) : (s.sys q).2.io = s.io := by
  cases q with
  | recv len =>
      simp only [Sock.sys, Sock.recv]
      split <;> try rfl
      split <;> try rfl
      split <;> rfl
  | send data =>
      simp only [Sock.sys, Sock.send]
      split <;> try rfl
      split <;> try rfl
      split <;> rfl

@[simp] theorem Sock.close_io (s : Sock) : s.close.io = s.io := by
  unfold Sock.close
  split <;> rfl

theorem Wire.Ok.set {w : Wire} (h : w.Ok) {r : Role} {s : Sock} (hs : s.Ok) : (w.set r s).Ok := by
  intro r'
  by_cases hr : r' = r
  · rw [hr, set_sock_self]
    exact hs
  · rw [set_sock_of_ne _ _ hr]
    exact h r'

theorem Wire.step_ok {o : IoOp} {w w' : Wire} {x : o.Res} (h : Wire.step o w = some (x, w'))
    (hw : w.Ok) : w'.Ok := by
  cases o with
  | setBuf r io =>
      simp only [Wire.step] at h
      split at h
      · rename_i hio
        simp only [Option.some.injEq, Prod.mk.injEq] at h
        exact h.2 ▸ hw.set hio
      · exact absurd h (by simp)
  | sys r q =>
      simp only [Wire.step, Option.some.injEq, Prod.mk.injEq] at h
      refine h.2 ▸ hw.set ?_
      show (((w.sock r).sys q).2.io).bufS ≤ _ ∧ _
      rw [Sock.sys_io]
      exact hw r
  | close r =>
      simp only [Wire.step, Option.some.injEq, Prod.mk.injEq] at h
      refine h.2 ▸ hw.set ?_
      show ((w.sock r).close.io).bufS ≤ _ ∧ _
      rw [Sock.close_io]
      exact hw r
  | mainStat | stat _ | getBuf _ | yield _ _ | mark _ | log _ =>
      simp only [Wire.step, Option.some.injEq, Prod.mk.injEq] at h
      exact h.2 ▸ hw
  | ub => exact nomatch x

/-- `0 <= buf_s <= buf_e <= buf_cap` is an invariant of every call. -/
theorem evals_ok {α : Type} {p : Io α} {w w' : Wire} {a : α} (h : Evals p w a w') (hw : w.Ok) :
    w'.Ok := by
  induction h with
  | ret a w => exact hw
  | call hm _ ih => exact ih (Wire.step_ok hm hw)
  | iter _ ih => exact ih hw

-- ============================================================================
-- What was sent stays sent
-- ============================================================================

theorem Sock.recv_sent (s : Sock) (len : Nat) : (s.recv len).2.sent = s.sent := by
  unfold Sock.recv
  split <;> try rfl
  split <;> try rfl
  split <;> rfl

theorem Sock.close_sent (s : Sock) : s.close.sent = s.sent := by
  unfold Sock.close
  split <;> rfl

theorem Sock.sys_sent (s : Sock) (q : SysReq) : s.sent <+: (s.sys q).2.sent := by
  cases q with
  | recv len =>
      show s.sent <+: (s.recv len).2.sent
      exact (Sock.recv_sent s len).symm ▸ List.prefix_refl s.sent
  | send data =>
      show s.sent <+: (s.send data).2.sent
      unfold Sock.send
      split
      · exact List.prefix_refl _
      split
      · exact List.prefix_refl _
      split
      · exact List.prefix_append _ _
      · exact List.prefix_refl _
      · exact List.prefix_refl _
      · exact List.prefix_append _ _

theorem Wire.set_sent {w : Wire} {r r' : Role} {s : Sock} (h : (w.sock r).sent <+: s.sent) :
    (w.sock r').sent <+: ((w.set r s).sock r').sent := by
  by_cases hr : r' = r
  · subst hr
    exact (set_sock_self w r' s).symm ▸ h
  · exact (set_sock_of_ne w s hr).symm ▸ List.prefix_refl (w.sock r').sent

theorem Wire.step_sent_prefix {o : IoOp} {w w' : Wire} {x : o.Res} (r : Role)
    (h : Wire.step o w = some (x, w')) : (w.sock r).sent <+: (w'.sock r).sent := by
  cases o with
  | setBuf r' io =>
      simp only [Wire.step, Option.ite_none_right_eq_some, Option.some.injEq, Prod.mk.injEq] at h
      exact h.2.2 ▸ Wire.set_sent (List.prefix_refl _)
  | sys r' q =>
      simp only [Wire.step, Option.some.injEq, Prod.mk.injEq] at h
      exact h.2 ▸ Wire.set_sent (Sock.sys_sent _ _)
  | close r' =>
      simp only [Wire.step, Option.some.injEq, Prod.mk.injEq] at h
      have hclose := (Sock.close_sent (w.sock r')).symm
      exact h.2 ▸ Wire.set_sent (hclose ▸ List.prefix_refl (w.sock r').sent)
  | mainStat | stat _ | getBuf _ | yield _ _ | mark _ | log _ =>
      simp only [Wire.step, Option.some.injEq, Prod.mk.injEq] at h
      exact h.2 ▸ List.prefix_refl _
  | ub => exact nomatch x

/-- No program takes back what a connection was sent. -/
theorem evals_sent {α : Type} {p : Io α} {w w' : Wire} {a : α} (r : Role) (h : Evals p w a w') :
    (w.sock r).sent <+: (w'.sock r).sent := by
  induction h with
  | ret a w => exact List.prefix_refl _
  | call hm _ ih => exact (Wire.step_sent_prefix r hm).trans ih
  | iter _ ih => exact ih

-- ============================================================================
-- A closed connection stays closed
-- ============================================================================

theorem Sock.sys_stat (s : Sock) (q : SysReq) : (s.sys q).2.stat = s.stat := by
  cases q with
  | recv len =>
      simp only [Sock.sys, Sock.recv]
      split <;> try rfl
      split <;> try rfl
      split <;> rfl
  | send data =>
      simp only [Sock.sys, Sock.send]
      split <;> try rfl
      split <;> try rfl
      split <;> rfl

@[simp] theorem Sock.close_stat (s : Sock) : s.close.stat = .closed := by
  unfold Sock.close
  split
  · assumption
  · rfl

theorem Wire.step_closed {o : IoOp} {w w' : Wire} {x : o.Res} {r : Role}
    (h : Wire.step o w = some (x, w')) (hc : (w.sock r).stat = .closed) :
    (w'.sock r).stat = .closed := by
  have hset {r' : Role} {s : Sock} (hs : r' = r → s.stat = .closed) :
      ((w.set r' s).sock r).stat = .closed := by
    by_cases hr : r' = r
    · rw [hr, set_sock_self]
      exact hs hr
    · rw [set_sock_of_ne _ _ (Ne.symm hr)]
      exact hc
  cases o with
  | setBuf r' io =>
      simp only [Wire.step] at h
      split at h
      · simp only [Option.some.injEq, Prod.mk.injEq] at h
        exact h.2 ▸ hset fun hr => hr ▸ hc
      · exact absurd h (by simp)
  | sys r' q =>
      simp only [Wire.step, Option.some.injEq, Prod.mk.injEq] at h
      exact h.2 ▸ hset fun hr => ((w.sock r').sys_stat q).trans (hr ▸ hc)
  | close r' =>
      simp only [Wire.step, Option.some.injEq, Prod.mk.injEq] at h
      exact h.2 ▸ hset fun _ => (w.sock r').close_stat
  | mainStat | stat _ | getBuf _ | yield _ _ | mark _ | log _ =>
      simp only [Wire.step, Option.some.injEq, Prod.mk.injEq] at h
      exact h.2 ▸ hc
  | ub => exact nomatch x

/-- No call opens a closed connection again. -/
theorem evals_closed {α : Type} {p : Io α} {w w' : Wire} {a : α} {r : Role}
    (h : Evals p w a w') (hc : (w.sock r).stat = .closed) : (w'.sock r).stat = .closed := by
  induction h with
  | ret a w => exact hc
  | call hm _ ih => exact ih (Wire.step_closed hm hc)
  | iter _ ih => exact ih hc

end HttpProxy
