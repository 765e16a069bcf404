/-
  HttpProxy.Stream.Reader

  conn_getc, conn_ungetc and conn_gets on a stream.  What a call returns is a
  function of the bytes that can still be read, so it does not depend on how
  they arrive; `connGets_eval` is the line reader on an arbitrary stream.
-/

import HttpProxy.Stream.Relay
import HttpProxy.Stream.Buffer

namespace HttpProxy

open Lib

-- ============================================================================
-- conn_try_io on a receive
-- ============================================================================

theorem Sock.with_inp {s : Sock} {inp : List Arrival} (h : s.inp = inp) :
    { s with inp } = s := by
  rw [← h]

section

variable {w : Wire} {r : Role} {len : Nat}

/-- One round of `conn_try_io`. -/
theorem connTryIo_round {q : SysReq} {cb : Bool} {b : Option Bytes} {w' : Wire}
    (hrun : w.mainStat = .running)
    (h : match ((w.sock r).sys q).1 with
      | .ok bs => b = some bs ∧ w' = w.set r ((w.sock r).sys q).2
      | .zero => b = none ∧ w' = w.set r ((w.sock r).sys q).2
      | .err => b = none ∧ w' = w.set r ((w.sock r).sys q).2
      | .again => if cb then
            Evals (connTryIo r q cb) (w.set r ((w.sock r).sys q).2) b w'
          else b = none ∧ w' = w.set r ((w.sock r).sys q).2) :
    Evals (connTryIo r q cb) w b w' := by
  cases hres : ((w.sock r).sys q).1 with
  | ok bs =>
      rw [hres] at h
      exact Eval.loop_inr (by simp [Io.mainStat, Io.sys, hrun, hres, h])
  | zero =>
      rw [hres] at h
      exact Eval.loop_inr (by simp [Io.mainStat, Io.sys, hrun, hres, h])
  | err =>
      rw [hres] at h
      exact Eval.loop_inr (by simp [Io.mainStat, Io.sys, hrun, hres, h])
  | again =>
      rw [hres] at h
      cases cb with
      | false => exact Eval.loop_inr (by simp_all [Io.mainStat, Io.sys])
      | true =>
          refine Eval.loop_inl ?_ h
          simp [Io.mainStat, Io.sys, Io.yield, hrun, hres]

/-- A receive yields some of what is still to be received, after any number of EAGAIN.
    It fails where nothing more arrives, or at EAGAIN on a closed connection. -/
theorem connTryIo_recv_open (cb : Bool) {inp : List Arrival} (hlen : 0 < len)
    (hrun : w.mainStat = .running) (hopen : (w.sock r).isOpen = true)
    (hinp : (w.sock r).inp = inp) :
    ∃ o inp', Evals (connTryIo r (.recv len) cb) w o (w.set r { w.sock r with inp := inp' }) ∧
      stream inp = o.getD [] ++ stream inp' ∧
      (∀ bs ∈ o, bs ≠ [] ∧ bs.length ≤ len) ∧ (o = none → cb = true → stream inp = []) := by
  have hlen' : len ≠ 0 := Nat.ne_of_gt hlen
  induction inp generalizing w with
  | nil =>
      refine ⟨none, [], ?_, by simp [stream], by simp, by simp [stream]⟩
      rw [Sock.with_inp hinp, w.set_self]
      exact connTryIo_round hrun (by simp [Sock.sys, Sock.recv, hopen, hinp, hlen'])
  | cons a inp ih =>
      cases a with
      | block =>
          cases cb with
          | false =>
              refine ⟨none, inp, connTryIo_round hrun ?_, by simp [stream], by simp, by simp⟩
              simp [Sock.sys, Sock.recv, hopen, hinp, hlen']
          | true =>
              obtain ⟨o, inp', he, ho⟩ := ih (w := w.set r { w.sock r with inp }) hrun
                (by simpa using hopen) (by simp)
              refine ⟨o, inp', connTryIo_round hrun ?_, ho⟩
              simpa [Sock.sys, Sock.recv, hopen, hinp, hlen'] using he
      | data b bs =>
          refine ⟨some ((b :: bs).take len), pushData ((b :: bs).drop len) inp,
            connTryIo_round hrun ?_, ?_, ?_, by simp⟩
          · simp [Sock.sys, Sock.recv, hopen, hinp, hlen']
          · rw [stream_pushData, Option.getD_some, ← List.append_assoc, List.take_append_drop]
            rfl
          · rintro _ ⟨⟩
            exact ⟨by simp [hlen'], List.length_take_le len (b :: bs)⟩
      | fail =>
          refine ⟨none, .fail :: inp, ?_, by simp [stream], by simp, by simp [stream]⟩
          rw [Sock.with_inp hinp, w.set_self]
          exact connTryIo_round hrun (by simp [Sock.sys, Sock.recv, hopen, hinp, hlen'])

/-- The receive every call makes. -/
theorem connTryIo_recv (w : Wire) (r : Role) (hlen : 0 < len) :
    ∃ o inp', Evals (connTryIo r (.recv len) ((w.sock r).stat != .closed)) w o
        (w.set r { w.sock r with inp := inp' }) ∧
      w.incoming r = o.getD [] ++ (w.set r { w.sock r with inp := inp' }).incoming r ∧
      (∀ bs ∈ o, bs ≠ [] ∧ bs.length ≤ len) ∧ (o = none → w.Live r → w.incoming r = []) := by
  cases hrun : w.mainStat with
  | exiting =>
      refine ⟨none, (w.sock r).inp, ?_, by simp [Wire.incoming, hrun], by simp,
        fun _ _ => by simp [Wire.incoming, hrun]⟩
      rw [Sock.with_inp rfl, w.set_self]
      exact Eval.loop_inr (by simp [Io.mainStat, hrun])
  | running =>
      cases hopen : (w.sock r).isOpen with
      | false =>
          refine ⟨none, (w.sock r).inp, ?_, by simp [Wire.incoming, hopen], by simp,
            fun _ _ => w.incoming_of_not_open hopen⟩
          rw [Sock.with_inp rfl, w.set_self]
          exact connTryIo_round hrun (by simp [Sock.sys, Sock.recv, hopen])
      | true =>
          obtain ⟨o, inp', he, hs, hsome, hnone⟩ := connTryIo_recv_open
            ((w.sock r).stat != .closed) hlen hrun hopen rfl
          refine ⟨o, inp', he, ?_, hsome, fun ho hlive => ?_⟩
          · simpa [Wire.incoming, hrun, hopen] using hs
          · have hend := hnone ho (by simpa using (show (w.sock r).stat ≠ .closed from hlive))
            simpa [Wire.incoming, hrun, hopen] using hend

end

-- ============================================================================
-- Closing
-- ============================================================================

/-- Closing the connection that is read, once nothing is left to be read. -/
theorem Moved.of_close (src : Role) (w : Wire) (h : w.Live src → w.unread src = []) :
    Moved src w (w.set src (w.sock src).close) [] [] where
  mainStat := rfl
  unread := by
    by_cases hlive : w.Live src
    · have hnil := h hlive
      rw [hnil]
      simp only [Wire.unread, List.append_eq_nil_iff] at hnil
      simp [Wire.unread, Wire.incoming, Sock.close, show (w.sock src).stat ≠ .closed from hlive,
        hnil.1]
    · have hstat : (w.sock src).stat = .closed := by simpa [Wire.Live] using hlive
      simp [Sock.close, hstat]
  sentSrc := by
    rw [Wire.set_sock_self, Sock.close]
    split <;> rfl
  outSrc := by
    rw [Wire.set_sock_self, Sock.close]
    split <;> rfl
  stat := by simp
  isOpen := by simp
  unreadDst := by simp [Wire.unread, Wire.incoming]
  sent := by simp
  room := by simp [Wire.room]

-- ============================================================================
-- conn_getc and conn_ungetc
-- ============================================================================

/-- The byte before the read position is `c`. -/
def Wire.Pushable (w : Wire) (r : Role) (c : UInt8) : Prop :=
  0 < (w.sock r).io.bufS ∧ (w.sock r).io.buf[(w.sock r).io.bufS - 1]? = some c

section

variable {w : Wire} {r : Role}

/-- Emptying a buffer that has been read to its end changes nothing to be read. -/
theorem Relay.of_emptied (hbuf : (w.sock r).io.buf.drop (w.sock r).io.bufS = []) :
    Relay r w (w.set r { w.sock r with io := { (w.sock r).io with buf := [], bufS := 0 } })
      [] [] :=
  .of_read (by simp [Wire.unread, Wire.incoming, hbuf])

/-- `conn_getc` with an empty buffer. -/
theorem connGetc_empty {a : Int} {w' : Wire}
    (hc : (w.sock r).io.buf[(w.sock r).io.bufS]? = none) :
    Evals (connGetc r) w a w' ↔
      Evals (do
        match ← connTryIo r (.recv CONN_IOBUF_SIZE)
          (((w.set r { w.sock r with
            io := { (w.sock r).io with buf := [], bufS := 0 } }).sock r).stat != .closed) with
        | none => do
            Io.close r
            return -1
        | some bs => do
            let b ← Io.getBuf r
            Io.setBuf r { b with buf := bs, bufS := 1, rx := toInt32 (b.rx + 1) }
            return charToInt (bs.headD 0))
        (w.set r { w.sock r with io := { (w.sock r).io with buf := [], bufS := 0 } }) a w' := by
  simp only [connGetc, Io.getBuf, Io.setBuf, connOpen, Io.stat, Prog.bind_eq, Prog.op_bind,
    Prog.call_bind, Prog.ret_bind, Prog.pure_eq, evals_getBuf, evals_setBuf, evals_stat, hc]
  exact and_iff_right ⟨Nat.le_refl 0, Nat.zero_le _⟩

/-- `conn_getc` takes one byte of the stream, or fails and closes the connection. -/
theorem connGetc_eval (hok : w.Ok) :
    (∃ c w', Evals (connGetc r) w (charToInt c) w' ∧ Relay r w w' [c] [] ∧ w'.Pushable r c) ∨
      ∃ w', Evals (connGetc r) w (-1) w' ∧ Moved r w w' [] [] ∧ ¬ w'.Live r ∧
        (w.Live r → w.unread r = []) := by
  cases hc : (w.sock r).io.buf[(w.sock r).io.bufS]? with
  | some c =>
      obtain ⟨hlt, hget⟩ := List.getElem?_eq_some_iff.mp hc
      refine .inl ⟨c, w.set r { w.sock r with
        io := { (w.sock r).io with bufS := (w.sock r).io.bufS + 1 } }, ?_, .of_read ?_, ?_⟩
      · have hcap := (hok r).2
        simp [connGetc, Io.getBuf, Io.setBuf, hc]
        omega
      · simp only [Wire.unread, Wire.incoming, Wire.set_sock_self, Wire.set_mainStat]
        rw [List.drop_eq_getElem_cons hlt, hget]
        rfl
      · simpa [Wire.Pushable] using hc
  | none =>
      have hbuf : (w.sock r).io.buf.drop (w.sock r).io.bufS = [] :=
        List.drop_of_length_le (List.getElem?_eq_none_iff.mp hc)
      have hempty := Relay.of_emptied hbuf
      generalize hw₁ : w.set r { w.sock r with io := { (w.sock r).io with buf := [], bufS := 0 } }
        = w₁ at hempty
      have hbuf₁ : (w₁.sock r).io.buf = [] := by simp [← hw₁]
      obtain ⟨o, inp', he, hin, hsome, hnone⟩ := connTryIo_recv w₁ r
        (by decide : 0 < CONN_IOBUF_SIZE)
      cases o with
      | none =>
          have hclose := Moved.of_close r (w₁.set r { w₁.sock r with inp := inp' })
            fun hlive => by
              have hnil := hnone rfl (by simpa [Wire.Live] using hlive)
              have hrest := hin.symm.trans hnil
              simpa [Wire.unread, hbuf₁] using hrest
          have hrecv : Relay r w₁ (w₁.set r { w₁.sock r with inp := inp' }) [] [] :=
            .of_read (by simpa [Wire.unread] using hin)
          refine .inr ⟨_, ?_, (hempty.trans hrecv).toMoved.trans hclose, by simp [Wire.Live],
            fun hlive => ?_⟩
          · rw [connGetc_empty hc, hw₁]
            exact he.bind (by simp [Io.close])
          have hnil := hnone rfl (by simpa [Wire.Live, hempty.statSrc] using hlive)
          rw [hempty.unread, Wire.unread, hbuf₁, hnil]
          simp
      | some bs =>
          obtain ⟨hne, hle⟩ := hsome bs rfl
          obtain ⟨c, bs, rfl⟩ := List.exists_cons_of_ne_nil hne
          refine .inl ⟨c, w₁.set r { w₁.sock r with
              io := { (w₁.sock r).io with
                buf := c :: bs, bufS := 1, rx := toInt32 ((w₁.sock r).io.rx + 1) }
              inp := inp' }, ?_, hempty.trans (.of_read ?_), ?_⟩
          · rw [connGetc_empty hc, hw₁]
            exact he.bind (by simpa [Io.getBuf, Io.setBuf] using hle)
          · simpa [Wire.unread, Wire.incoming, hbuf₁] using hin
          · simp [Wire.Pushable]

/-- `conn_ungetc` takes the last byte back. -/
theorem connUngetc_eval {w₁ : Wire} {c : UInt8} {got : Bytes} (h : Relay r w w₁ (got ++ [c]) [])
    (hok : w₁.Ok) (hc : w₁.Pushable r c) :
    ∃ w', Evals (connUngetc r) w₁ () w' ∧ Relay r w w' got [] := by
  obtain ⟨hpos, hget⟩ := hc
  obtain ⟨hlt, hget⟩ := List.getElem?_eq_some_iff.mp hget
  refine ⟨w₁.set r { w₁.sock r with io := { (w₁.sock r).io with
      bufS := (w₁.sock r).io.bufS - 1, rx := toInt32 ((w₁.sock r).io.rx - 1) } }, ?_, ?_⟩
  · have hcap := (hok r).2
    have hle := (hok r).1
    simp only [connUngetc, Io.getBuf, Io.setBuf, Prog.bind_eq, Prog.op_bind, evals_getBuf]
    rw [if_neg (Nat.ne_of_gt hpos)]
    refine .call (if_pos ⟨?_, hcap⟩) (.ret _ _)
    exact Nat.le_trans (Nat.sub_le _ _) hle
  · have hdrop := List.drop_eq_getElem_cons hlt
    rw [hget, Nat.sub_add_cancel hpos] at hdrop
    exact {
      mainStat := h.mainStat
      unread := by
        rw [h.unread, List.append_assoc]
        simp [Wire.unread, Wire.incoming, hdrop]
      sentSrc := by simp [h.sentSrc]
      outSrc := by simp [h.outSrc]
      stat := by simp [h.stat]
      isOpen := by simp [h.isOpen]
      unreadDst := by
        rw [← h.unreadDst]
        simp [Wire.unread, Wire.incoming]
      sent := by simp [h.sent]
      room := by
        rw [← h.room]
        simp [Wire.room]
      statSrc := by simp [h.statSrc]
      isOpenSrc := by simp [h.isOpenSrc] }

end

-- ============================================================================
-- conn_gets
-- ============================================================================

/-- How the line reader stops. -/
inductive LineEnd where
  | eol
  /-- the limit is reached -/
  | limit
  /-- the stream has ended -/
  | eof
  /-- a byte that reads as -1 -/
  | bad
deriving DecidableEq, Repr

/-- The line reader on a stream when `n` more bytes fit: how it stops, the bytes of
    the line, and what is left of the stream. -/
def scanLine : Nat → Bytes → LineEnd × Bytes × Bytes
  | 0, u => (.limit, [], u)
  | _ + 1, [] => (.eof, [], [])
  | n + 1, c :: u =>
      if c = 255 then (.bad, [], u)
      else if c = 10 then (.eol, [], u)
      else if c = 13 then
        match u with
        | [] => (.eof, [], [])
        | d :: v =>
            if d = 255 then (.bad, [], v)
            else if d = 10 then (.eol, [], v)
            else (.eol, [], d :: v)
      else
        let x := scanLine n u
        (x.1, c :: x.2.1, x.2.2)

/-- The body of the loop of `conn_gets`. -/
def connGetsBody (r : Role) (lenLimit : Nat) (x : Int × Strbuf) :
    Io ((Int × Strbuf) ⊕ (Int × Strbuf)) := do
  if x.2.len + 1 = lenLimit then return .inr (-1, x.2)
  else do
    let ch ← connGetc r
    if ch = -1 then return .inr (-1, x.2)
    else if ch = 10 then return .inr x
    else if ch = 13 then do
      let ch ← connGetc r
      if ch = -1 then return .inr (-1, x.2)
      else if ch = 10 then return .inr x
      else do
        connUngetc r
        return .inr x
    else return .inl (x.1 + 1, strbufAppend x.2 (intToChar ch))

theorem connGets_eq (r : Role) (lenLimit : Nat) (buf : Strbuf) :
    connGets r lenLimit buf = Prog.loop (connGetsBody r lenLimit) (0, buf) := rfl

/-- A `char` read as `int` is one of the values `conn_gets` tests for only if it is
    that byte. -/
theorem charToInt_eq_iff {c : UInt8} {n : Int} (d : UInt8) (hd : charToInt d = n) :
    charToInt c = n ↔ c = d := by
  refine ⟨fun h => UInt8.toNat_inj.mp ?_, fun h => h ▸ hd⟩
  have hc := c.toNat_lt
  have hd' := d.toNat_lt
  unfold charToInt at h hd
  split at h <;> split at hd <;> omega

@[simp] theorem charToInt_eq_neg_one {c : UInt8} : charToInt c = -1 ↔ c = 255 :=
  charToInt_eq_iff 255 (by decide)

@[simp] theorem charToInt_eq_lf {c : UInt8} : charToInt c = 10 ↔ c = 10 :=
  charToInt_eq_iff 10 (by decide)

@[simp] theorem charToInt_eq_cr {c : UInt8} : charToInt c = 13 ↔ c = 13 :=
  charToInt_eq_iff 13 (by decide)

@[simp] theorem intToChar_charToInt (c : UInt8) : intToChar (charToInt c) = c := by
  have hc := c.toNat_lt
  have hmod : (charToInt c % 256).toNat = c.toNat := by
    unfold charToInt
    split <;> omega
  rw [intToChar, hmod, UInt8.ofNat_toNat]

/-- Reading a line moved the stream of `r` to where the line reader leaves it. -/
structure LineRead (r : Role) (w : Wire) (n : Nat) (got : Bytes) (w' : Wire) : Prop where
  moved : Moved r w w' got []
  unread : w'.unread r = (scanLine n (w.unread r)).2.2
  eof : (scanLine n (w.unread r)).1 = .eof → ¬ w'.Live r
  relay : (scanLine n (w.unread r)).1 ≠ .eof → Relay r w w' got []

/-- A line that ended was read with nothing else changed. -/
theorem LineRead.relay_eol {r : Role} {w w' : Wire} {n : Nat} {got line rest : Bytes}
    (h : LineRead r w n got w') (hx : scanLine n (w.unread r) = (.eol, line, rest)) :
    Relay r w w' got [] := by
  apply h.relay
  intro heof
  rw [hx] at heof
  exact LineEnd.noConfusion heof

/-- The value `conn_gets` returns. -/
def lineRet (x : LineEnd × Bytes × Bytes) : Int := if x.1 = .eol then x.2.1.length else -1

section

variable {w : Wire} {r : Role} {lenLimit : Nat}

/-- After CR: the byte that follows is read, and pushed back unless it is LF. -/
theorem connGets_cr {w₁ : Wire} {x : Int × Strbuf} (hok : w₁.Ok) (hlive : w₁.Live r)
    (h : Relay r w w₁ [13] []) (n : Nat) :
    ∃ got w', Evals (do
        let ch ← connGetc r
        if ch = -1 then return .inr (-1, x.2)
        else if ch = 10 then return .inr x
        else do
          connUngetc r
          return .inr x : Io ((Int × Strbuf) ⊕ (Int × Strbuf))) w₁
        (.inr (if (scanLine (n + 1) (w.unread r)).1 = .eol then x.1 else -1, x.2)) w' ∧
      (scanLine (n + 1) (w.unread r)).2.1 = [] ∧ LineRead r w (n + 1) got w' := by
  have hu : w.unread r = 13 :: w₁.unread r := h.unread
  rcases connGetc_eval (r := r) hok with ⟨d, w₂, he, h₂, hpush⟩ | ⟨w₂, he, h₂, hdead, hend⟩
  · have hu₁ : w₁.unread r = d :: w₂.unread r := h₂.unread
    by_cases hbad : d = 255
    · have hscan : scanLine (n + 1) (w.unread r) = (.bad, [], w₂.unread r) := by
        simp [hu, hu₁, scanLine, hbad]
      refine ⟨[13] ++ [d], w₂, ?_, by rw [hscan], ?_⟩
      · exact he.bind (by simp [hscan, hbad])
      · exact ⟨(h.trans h₂).toMoved, by rw [hscan], by simp [hscan], fun _ => h.trans h₂⟩
    by_cases hlf : d = 10
    · have hscan : scanLine (n + 1) (w.unread r) = (.eol, [], w₂.unread r) := by
        simp [hu, hu₁, scanLine, hlf]
      refine ⟨[13] ++ [d], w₂, ?_, by rw [hscan], ?_⟩
      · exact he.bind (by simp [hscan, hlf])
      · exact ⟨(h.trans h₂).toMoved, by rw [hscan], by simp [hscan], fun _ => h.trans h₂⟩
    -- any other byte is pushed back
    have hscan : scanLine (n + 1) (w.unread r) = (.eol, [], w₁.unread r) := by
      simp [hu, hu₁, scanLine, hbad, hlf]
    obtain ⟨w₃, he₃, h₃⟩ := connUngetc_eval (h.trans h₂) (evals_ok he hok) hpush
    refine ⟨[13], w₃, ?_, by rw [hscan], ?_⟩
    · refine he.bind ?_
      rw [if_neg (by simpa using hbad), if_neg (by simpa using hlf)]
      exact he₃.bind (by simp [hscan])
    · have hu₃ : w₁.unread r = w₃.unread r := by
        have heq := hu.symm.trans h₃.unread
        simpa using heq
      exact ⟨h₃.toMoved, by rw [hscan, hu₃], by simp [hscan], fun _ => h₃⟩
  · have hscan : scanLine (n + 1) (w.unread r) = (.eof, [], []) := by
      simp [hu, hend hlive, scanLine]
    refine ⟨[13] ++ [], w₂, ?_, by rw [hscan], ?_⟩
    · exact he.bind (by simp [hscan])
    · have hnil : w₂.unread r = [] := h₂.unread.symm.trans (hend hlive)
      exact ⟨h.toMoved.trans h₂, by rw [hscan, hnil], fun _ => hdead, by simp [hscan]⟩

/-- The loop of `conn_gets` when `n` more bytes fit, or when the limit has been passed
    and `n` is more than there is to read. -/
theorem connGets_loop (n : Nat) {w : Wire} {k : Int} {buf : Strbuf} (hok : w.Ok)
    (hready : w.Live r ∨ w.unread r = [])
    (hlen : buf.len + 1 + n = lenLimit ∨ lenLimit < buf.len + 1 ∧ (w.unread r).length < n) :
    ∃ got w', Evals (Prog.loop (connGetsBody r lenLimit) (k, buf)) w
        (if (scanLine n (w.unread r)).1 = .eol then k + (scanLine n (w.unread r)).2.1.length
          else -1, strbufCat buf (scanLine n (w.unread r)).2.1) w' ∧
      LineRead r w n got w' := by
  induction n generalizing w k buf with
  | zero =>
      refine ⟨[], w, Eval.loop_inr ?_, (Relay.refl r w).toMoved, rfl, by simp [scanLine],
        fun _ => .refl r w⟩
      have hfull : buf.len + 1 = lenLimit := by omega
      simp [connGetsBody, hfull, scanLine]
  | succ n ih =>
      have hroom : ¬ buf.len + 1 = lenLimit := by omega
      rcases connGetc_eval (r := r) hok with ⟨c, w₁, he, h₁, hpush⟩ | ⟨w₁, he, h₁, hdead, hend⟩
      · have hu : w.unread r = c :: w₁.unread r := h₁.unread
        have hlive₁ : w₁.Live r := by
          rw [Wire.Live, h₁.statSrc]
          exact hready.resolve_right (by simp [hu])
        by_cases hbad : c = 255
        · have hscan : scanLine (n + 1) (w.unread r) = (.bad, [], w₁.unread r) := by
            simp [hu, scanLine, hbad]
          refine ⟨[c], w₁, Eval.loop_inr ?_, ?_⟩
          · simp only [connGetsBody, hroom, if_false, Prog.bind_eq]
            exact he.bind (by simp [hscan, hbad])
          · exact ⟨h₁.toMoved, by rw [hscan], by simp [hscan], fun _ => h₁⟩
        by_cases hlf : c = 10
        · have hscan : scanLine (n + 1) (w.unread r) = (.eol, [], w₁.unread r) := by
            simp [hu, scanLine, hlf]
          refine ⟨[c], w₁, Eval.loop_inr ?_, ?_⟩
          · simp only [connGetsBody, hroom, if_false, Prog.bind_eq]
            exact he.bind (by simp [hscan, hlf])
          · exact ⟨h₁.toMoved, by rw [hscan], by simp [hscan], fun _ => h₁⟩
        by_cases hcr : c = 13
        · subst hcr
          obtain ⟨got, w₂, he₂, hnil, h₂⟩ := connGets_cr (x := (k, buf)) (evals_ok he hok)
            hlive₁ h₁ n
          refine ⟨got, w₂, Eval.loop_inr ?_, h₂⟩
          simp only [connGetsBody, hroom, if_false, Prog.bind_eq]
          refine he.bind ?_
          simpa [hnil] using he₂
        · -- an ordinary byte is appended
          have hlen₁ : (strbufAppend buf c).len + 1 + n = lenLimit ∨
              lenLimit < (strbufAppend buf c).len + 1 ∧ (w₁.unread r).length < n := by
            rw [hu, List.length_cons] at hlen
            rw [strbufAppend_len]
            omega
          obtain ⟨got, w₂, he₂, h₂⟩ := ih (k := k + 1) (evals_ok he hok) (.inl hlive₁) hlen₁
          have hscan : scanLine (n + 1) (w.unread r) =
              ((scanLine n (w₁.unread r)).1, c :: (scanLine n (w₁.unread r)).2.1,
                (scanLine n (w₁.unread r)).2.2) := by
            simp [hu, scanLine, hbad, hlf, hcr]
          have hbody : Evals (connGetsBody r lenLimit (k, buf)) w
              (.inl (k + 1, strbufAppend buf c)) w₁ := by
            simp only [connGetsBody, hroom, if_false, Prog.bind_eq]
            exact he.bind (by simp [hbad, hlf, hcr])
          refine ⟨[c] ++ got, w₂, Eval.loop_inl hbody ?_, ?_⟩
          · rw [hscan]
            have hcount (m : Nat) : k + 1 + (m : Int) = k + ((m + 1 : Nat) : Int) := by
              push_cast
              omega
            simpa [hcount] using he₂
          · exact ⟨h₁.toMoved.trans h₂.moved, by rw [hscan, h₂.unread],
              by rw [hscan]; exact h₂.eof, fun hne => h₁.trans (h₂.relay (by rwa [hscan] at hne))⟩
      · have hnil₀ : w.unread r = [] := hready.elim hend id
        have hscan : scanLine (n + 1) (w.unread r) = (.eof, [], []) := by
          simp [hnil₀, scanLine]
        have hnil : w₁.unread r = [] := h₁.unread.symm.trans hnil₀
        refine ⟨[], w₁, Eval.loop_inr ?_, h₁, by rw [hscan, hnil], fun _ => hdead, by simp [hscan]⟩
        simp only [connGetsBody, hroom, if_false, Prog.bind_eq]
        exact he.bind (by simp [hscan])

/-- `conn_gets` on a stream. -/
theorem connGets_eval {buf : Strbuf} (hok : w.Ok) (hready : w.Live r ∨ w.unread r = []) {n : Nat}
    (hlen : buf.len + 1 + n = lenLimit ∨ lenLimit < buf.len + 1 ∧ (w.unread r).length < n) :
    ∃ got w', Evals (connGets r lenLimit buf) w
        (lineRet (scanLine n (w.unread r)), strbufCat buf (scanLine n (w.unread r)).2.1) w' ∧
      LineRead r w n got w' := by
  have hloop := connGets_loop (k := 0) n hok hready hlen
  rw [connGets_eq]
  simpa [lineRet] using hloop

end

end HttpProxy
