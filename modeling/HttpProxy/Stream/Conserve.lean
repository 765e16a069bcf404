/-
  HttpProxy.Stream.Conserve

  The buffered reader loses and repeats nothing.  `Reader` is what the calls on a
  connection are for: a reader on a plain byte stream, without a buffer, without
  segments.  `readCalls_refine` says that conn_getc, conn_ungetc, conn_gets,
  conn_read and conn_copy, called in any order, return what that reader returns,
  and that what it has handed out, what is buffered and what is still to be
  received always make up the stream.
-/

import HttpProxy.Stream.Line
import HttpProxy.Stream.Copy

namespace HttpProxy

open Lib

-- ============================================================================
-- conn_read
-- ============================================================================

section

variable {w : Wire} {r : Role}

/-- The loop of `conn_read`, which receives straight into the caller's buffer. -/
theorem connReadLoop_eval (len : Nat) (got : Bytes) (hok : w.Ok) (hlive : w.Live r)
    (hbuf : w.leftover r = []) :
    if len ≤ (w.unread r).length then
      ∃ w', Evals (connReadLoop r len got) w (0, got ++ (w.unread r).take len) w' ∧
        Relay r w w' ((w.unread r).take len) []
    else
      ∃ w', Evals (connReadLoop r len got) w (-1, got ++ w.unread r) w' ∧
        Moved r w w' (w.unread r) [] ∧ ¬ w'.Live r := by
  induction len using Nat.strongRecOn generalizing w got with
  | _ len ih =>
    by_cases hlen : len = 0
    · subst hlen
      rw [if_pos (Nat.zero_le _)]
      exact ⟨w, Eval.loop_inr (by simp), by simpa using .refl r w⟩
    have hdrop : (w.sock r).io.buf.drop (w.sock r).io.bufS = [] := hbuf
    have hu : w.unread r = w.incoming r := by rw [Wire.unread_eq, hbuf]; rfl
    obtain ⟨o, inp', he, hin, hsome, hnone⟩ := connTryIo_recv w r (Nat.pos_of_ne_zero hlen)
    cases o with
    | none =>
        have hnil : w.unread r = [] := hu.trans (hnone rfl hlive)
        rw [if_neg (by rw [hnil, List.length_nil]; omega)]
        have hrecv : Relay r w (w.set r { w.sock r with inp := inp' }) [] [] :=
          .of_read (by simpa [Wire.unread] using hin)
        generalize w.set r { w.sock r with inp := inp' } = w₁ at he hrecv
        have hnil₁ : w₁.unread r = [] := hrecv.unread.symm.trans hnil
        refine ⟨w₁.set r (w₁.sock r).close, Eval.loop_inr ?_, ?_, by simp [Wire.Live]⟩
        · simp only [hlen, if_false, connOpen, Io.stat, Prog.bind_eq, Prog.op_bind, Prog.pure_eq,
            Prog.call_bind, Prog.ret_bind, evals_stat]
          exact he.bind (by simp [Io.close, hnil])
        · rw [hnil]
          exact hrecv.toMoved.trans (.of_close r w₁ fun _ => hnil₁)
    | some bs =>
        obtain ⟨hne, hle⟩ := hsome bs rfl
        have hpos := List.length_pos_iff.mpr hne
        have hrecv : Relay r w (w.set r { w.sock r with inp := inp' }) bs [] :=
          .of_read (by simpa [Wire.unread, hdrop] using hin)
        have hok₁ : (w.set r { w.sock r with inp := inp' }).Ok := hok.set (hok r)
        have hbuf₁ : (w.set r { w.sock r with inp := inp' }).leftover r = [] := by
          simpa [Wire.leftover] using hbuf
        generalize w.set r { w.sock r with inp := inp' } = w₁ at he hrecv hok₁ hbuf₁
        have hlive₁ : w₁.Live r := hrecv.live hlive
        have hround (a : Int × Bytes) (w' : Wire)
            (h : Evals (connReadLoop r (len - bs.length) (got ++ bs)) w₁ a w') :
            Evals (connReadLoop r len got) w a w' := by
          refine Eval.loop_inl ?_ h
          simp only [hlen, if_false, connOpen, Io.stat, Prog.bind_eq, Prog.op_bind, Prog.pure_eq,
            Prog.call_bind, Prog.ret_bind, evals_stat]
          exact he.bind (by simp)
        have hlt : len - bs.length < len := by omega
        have hrest := ih (len - bs.length) hlt (got ++ bs) hok₁ hlive₁ hbuf₁
        have hu₁ : w.unread r = bs ++ w₁.unread r := hrecv.unread
        have hlen₁ : (w.unread r).length = bs.length + (w₁.unread r).length := by
          rw [hu₁, List.length_append]
        by_cases hfits : len ≤ (w.unread r).length
        · rw [if_pos (by omega)] at hrest
          rw [if_pos hfits]
          obtain ⟨w', he', h'⟩ := hrest
          have htake : (w.unread r).take len = bs ++ (w₁.unread r).take (len - bs.length) := by
            rw [hu₁, List.take_append, List.take_of_length_le hle]
          rw [htake, ← List.append_assoc]
          exact ⟨w', hround _ _ he', hrecv.trans h'⟩
        · rw [if_neg (by omega)] at hrest
          rw [if_neg hfits, hu₁, ← List.append_assoc]
          obtain ⟨w', he', h', hdead⟩ := hrest
          exact ⟨w', hround _ _ he', hrecv.toMoved.trans h', hdead⟩

theorem connReadLoop_zero (got : Bytes) : Evals (connReadLoop r 0 got) w (0, got) w :=
  Eval.loop_inr (by simp)

/-- `conn_read` up to its loop: what is buffered is copied first. -/
theorem connRead_start {len c : Nat} (hok : w.Ok) (hlive : w.Live r)
    (hc : c = min (w.leftover r).length len) :
    ∃ w₁, w₁.Ok ∧ Relay r w w₁ ((w.leftover r).take c) [] ∧
      w₁.leftover r = (w.leftover r).drop c ∧
      ∀ a w', Evals (connReadLoop r (len - c) ((w.leftover r).take c)) w₁ a w' →
        Evals (connRead r len) w a w' := by
  have hstat : (w.sock r).stat ≠ .closed := hlive
  have hlen : (w.leftover r).length = (w.sock r).io.buf.length - (w.sock r).io.bufS :=
    List.length_drop
  by_cases hlt : (w.sock r).io.bufS < (w.sock r).io.buf.length
  · have hmin : min ((w.sock r).io.buf.length - (w.sock r).io.bufS) len = c := by omega
    have hio : (w.sock r).io.bufS + c ≤ (w.sock r).io.buf.length ∧
        (w.sock r).io.buf.length ≤ CONN_IOBUF_SIZE := ⟨by omega, (hok r).2⟩
    refine ⟨w.set r { w.sock r with
        io := { (w.sock r).io with bufS := (w.sock r).io.bufS + c } }, hok.set hio,
      .of_read ?_, ?_, fun a w' h => ?_⟩
    · simp only [Wire.unread, Wire.incoming, Wire.set_sock_self, Wire.set_mainStat]
      rw [← List.append_assoc, ← List.drop_drop, ← Wire.leftover, List.take_append_drop]
    · simp [Wire.leftover]
    · simp only [connRead, Io.stat, Io.getBuf, Io.setBuf, Prog.bind_eq, Prog.op_bind, evals_stat]
      simp only [evals_getBuf, hlt, if_true, hmin, evals_setBuf]
      exact ⟨hio, h⟩
  · have hnil : w.leftover r = [] := by
      rw [← List.length_eq_zero_iff]
      omega
    obtain rfl : c = 0 := by rw [hc, hnil, List.length_nil, Nat.zero_min]
    refine ⟨w, hok, by simpa using .refl r w, rfl, fun a w' h => ?_⟩
    simp only [connRead, Io.stat, Io.getBuf, Prog.bind_eq, Prog.op_bind, evals_stat]
    simpa [hlt] using h

/-- `conn_read` on a connection that is not closed. -/
theorem connRead_eval (len : Nat) (hok : w.Ok) (hlive : w.Live r) :
    if len ≤ (w.unread r).length then
      ∃ w', Evals (connRead r len) w (0, (w.unread r).take len) w' ∧
        Relay r w w' ((w.unread r).take len) []
    else
      ∃ w', Evals (connRead r len) w (-1, w.unread r) w' ∧ Moved r w w' (w.unread r) [] ∧
        ¬ w'.Live r := by
  generalize hc : min (w.leftover r).length len = c
  obtain ⟨w₁, hok₁, h₁, hleft₁, hgo⟩ := connRead_start hok hlive hc.symm
  have htake : (w.unread r).take c = (w.leftover r).take c := by
    rw [Wire.unread_eq, List.take_append_of_le_length (by omega)]
  have hlen : (w.unread r).length = (w.leftover r).length + (w.incoming r).length := by
    rw [Wire.unread_eq, List.length_append]
  by_cases hle : len ≤ (w.leftover r).length
  · obtain rfl : len = c := by omega
    rw [Nat.sub_self] at hgo
    rw [if_pos (by omega), htake]
    exact ⟨w₁, hgo _ _ (connReadLoop_zero _), h₁⟩
  · obtain rfl : c = (w.leftover r).length := by omega
    rw [List.take_length] at h₁ hgo
    have hnil : w₁.leftover r = [] := by rw [hleft₁, List.drop_length]
    have hlive₁ : w₁.Live r := h₁.live hlive
    have hloop := connReadLoop_eval (len - (w.leftover r).length) (w.leftover r) hok₁ hlive₁ hnil
    have hu : w.unread r = w.leftover r ++ w₁.unread r := h₁.unread
    have hlen₁ : (w.unread r).length = (w.leftover r).length + (w₁.unread r).length := by
      rw [hu, List.length_append]
    by_cases hfits : len ≤ (w.unread r).length
    · rw [if_pos (by omega)] at hloop
      rw [if_pos hfits]
      obtain ⟨w', he', h'⟩ := hloop
      have hall : (w.unread r).take len =
          w.leftover r ++ (w₁.unread r).take (len - (w.leftover r).length) := by
        rw [hu, List.take_append, List.take_of_length_le (by omega)]
      rw [hall]
      exact ⟨w', hgo _ _ he', h₁.trans h'⟩
    · rw [if_neg (by omega)] at hloop
      rw [if_neg hfits, hu]
      obtain ⟨w', he', h', hdead⟩ := hloop
      exact ⟨w', hgo _ _ he', h₁.toMoved.trans h', hdead⟩

theorem connRead_closed {len : Nat} (h : ¬ w.Live r) : Evals (connRead r len) w (-1, []) w := by
  have hstat : (w.sock r).stat = .closed := by simpa [Wire.Live] using h
  simp [connRead, Io.stat, Io.close, hstat, Sock.close]

end

-- ============================================================================
-- The calls of a reader
-- ============================================================================

/-- One call on the connection that is read.  `peek` is conn_getc, followed by
    conn_ungetc when it was successful; `copy` writes to the other connection. -/
inductive ReadCall where
  | getc
  | peek
  | gets (lenLimit : Nat) (buf : Strbuf)
  | read (len : Nat)
  | copy (len : Nat)

/-- What a call returns to its caller. -/
inductive ReadRes where
  | char (ch : Int)
  | line (ret : Int) (buf : Strbuf)
  | bytes (ret : Int) (bs : Bytes)
  | copied (ret : Int)

def ReadCall.run (r : Role) : ReadCall → Io ReadRes
  | .getc => do return .char (← connGetc r)
  | .peek => do
      let ch ← connGetc r
      if ch = -1 then return .char ch
      else do
        connUngetc r
        return .char ch
  | .gets lenLimit buf => do
      let (ret, buf) ← connGets r lenLimit buf
      return .line ret buf
  | .read len => do
      let (ret, bs) ← connRead r len
      return .bytes ret bs
  | .copy len => do return .copied (← connCopy r.other r len)

def readCalls (r : Role) : List ReadCall → Io (List ReadRes)
  | [] => return []
  | c :: cs => do
      let x ← c.run r
      let xs ← readCalls r cs
      return x :: xs

-- ============================================================================
-- A reader without a buffer
-- ============================================================================

/-- A reader on a byte stream: what it has handed out in order, what is left, what it
    has copied to the other connection, and whether it has met the end. -/
structure Reader where
  given : Bytes
  rest : Bytes
  copied : Bytes
  ended : Bool

namespace Reader

def init (stream : Bytes) : Reader := { given := [], rest := stream, copied := [], ended := false }

/-- Hand out the next `n` bytes. -/
def take (a : Reader) (n : Nat) : Reader :=
  { a with given := a.given ++ a.rest.take n, rest := a.rest.drop n }

/-- Hand out what is left and meet the end. -/
def finish (a : Reader) : Reader := { a.take a.rest.length with ended := true }

/-- How many bytes of the stream fit a line that starts with what `buf` holds. -/
def lineRoom (lenLimit : Nat) (buf : Strbuf) (stream : Bytes) : Nat :=
  if buf.len + 1 ≤ lenLimit then lenLimit - (buf.len + 1) else stream.length + 1

def call (a : Reader) : ReadCall → ReadRes × Reader
  | .getc =>
      match a.rest with
      | [] => (.char (-1), a.finish)
      | c :: _ => (.char (charToInt c), a.take 1)
  | .peek =>
      match a.rest with
      | [] => (.char (-1), a.finish)
      | c :: _ => (.char (charToInt c), if c = 255 then a.take 1 else a)
  | .gets lenLimit buf =>
      -- the line and the end of the line are handed out
      let x := scanLine (lineRoom lenLimit buf a.rest) a.rest
      (.line (lineRet x) (strbufCat buf x.2.1),
        if x.1 = .eof then a.finish else a.take (a.rest.length - x.2.2.length))
  | .read len =>
      if a.ended then (.bytes (-1) [], a)
      else if len ≤ a.rest.length then (.bytes 0 (a.rest.take len), a.take len)
      else (.bytes (-1) a.rest, a.finish)
  | .copy len =>
      if len ≤ a.rest.length then
        (.copied 0, { a.take len with copied := a.copied ++ a.rest.take len })
      else (.copied (-1), { a.finish with copied := a.copied ++ a.rest })

def calls (a : Reader) : List ReadCall → List ReadRes × Reader
  | [] => ([], a)
  | c :: cs =>
      let x := a.call c
      let y := x.2.calls cs
      (x.1 :: y.1, y.2)

variable {a : Reader} {n : Nat}

@[simp] theorem finish_rest : a.finish.rest = [] := by
  simp [finish, take]

end Reader

-- ============================================================================
-- Refinement
-- ============================================================================

/-- The connection `r` of `w` is where the reader `a` is; `sent₀` had been written to
    the other connection before. -/
structure Reads (r : Role) (sent₀ : Bytes) (a : Reader) (w : Wire) : Prop where
  ok : w.Ok
  willing : w.Willing r.other
  rest : w.unread r = a.rest
  sent : (w.sock r.other).sent = sent₀ ++ a.copied
  live : a.ended = false → w.Live r
  ended : a.ended = true → ¬ w.Live r ∧ a.rest = []

namespace Reads

variable {r : Role} {sent₀ got put : Bytes} {a : Reader} {w w' : Wire}

theorem ready (h : Reads r sent₀ a w) : w.Live r ∨ w.unread r = [] := by
  cases hend : a.ended with
  | false => exact .inl (h.live hend)
  | true => exact .inr (h.rest.trans (h.ended hend).2)

/-- After a call that goes on, `got` has been read and `put` copied. -/
theorem relay (h : Reads r sent₀ a w) (hr : Relay r w w' got put) (hok : w'.Ok)
    (hrest : a.rest = got ++ w'.unread r) :
    Reads r sent₀ { a.take got.length with copied := a.copied ++ put } w' where
  ok := hok
  willing := hr.willing h.willing
  rest := by simp [Reader.take, hrest]
  sent := by rw [hr.sent, h.sent, List.append_assoc]
  live hend := hr.live (h.live hend)
  ended hend := by
    obtain ⟨hdead, hnil⟩ := h.ended hend
    refine ⟨by rw [Wire.Live, hr.statSrc]; exact hdead, ?_⟩
    simp [Reader.take, hnil]

/-- After a call that met the end. -/
theorem finish (h : Reads r sent₀ a w) (hm : Moved r w w' a.rest put) (hok : w'.Ok)
    (hdead : ¬ w'.Live r) :
    Reads r sent₀ { a.finish with copied := a.copied ++ put } w' where
  ok := hok
  willing := hm.willing h.willing
  rest := by
    have happ : a.rest ++ [] = a.rest ++ w'.unread r := by
      rw [List.append_nil, ← hm.unread, h.rest]
    simpa using (List.append_cancel_left happ).symm
  sent := by rw [hm.sent, h.sent, List.append_assoc]
  live hend := nomatch hend
  ended _ := ⟨hdead, Reader.finish_rest⟩

theorem relay_read (h : Reads r sent₀ a w) (hr : Relay r w w' got []) (hok : w'.Ok)
    (hrest : a.rest = got ++ w'.unread r) : Reads r sent₀ (a.take got.length) w' := by
  have hnext := h.relay hr hok hrest
  have hself : { a.take got.length with copied := a.copied ++ [] } = a.take got.length := by
    simp [Reader.take]
  rwa [hself] at hnext

theorem finish_read (h : Reads r sent₀ a w) (hm : Moved r w w' a.rest []) (hok : w'.Ok)
    (hdead : ¬ w'.Live r) : Reads r sent₀ a.finish w' := by
  have hnext := h.finish hm hok hdead
  have hself : { a.finish with copied := a.copied ++ [] } = a.finish := by
    simp [Reader.finish, Reader.take]
  rwa [hself] at hnext

/-- conn_getc. -/
theorem getc (h : Reads r sent₀ a w) :
    ∃ w', Evals (connGetc r) w (match a.rest with | [] => -1 | c :: _ => charToInt c) w' ∧
      Reads r sent₀ (match a.rest with | [] => a.finish | _ :: _ => a.take 1) w' ∧
      ∀ c u, a.rest = c :: u → Relay r w w' [c] [] ∧ w'.Pushable r c := by
  rcases connGetc_eval (r := r) h.ok with ⟨c, w', he, hr, hpush⟩ | ⟨w', he, hm, hdead, hend⟩
  · have hrest : a.rest = c :: w'.unread r := h.rest.symm.trans hr.unread
    refine ⟨w', by rw [hrest]; exact he, ?_, ?_⟩
    · have hnext := h.relay_read hr (evals_ok he h.ok) hrest
      rw [hrest]
      exact hnext
    · intro d u hd
      rw [hrest, List.cons.injEq] at hd
      exact hd.1 ▸ ⟨hr, hpush⟩
  · have hnil : a.rest = [] := h.rest.symm.trans (h.ready.elim hend id)
    refine ⟨w', by rw [hnil]; exact he, ?_, by simp [hnil]⟩
    have hm' : Moved r w w' a.rest [] := by rw [hnil]; exact hm
    have hnext := h.finish_read hm' (evals_ok he h.ok) hdead
    rw [hnil]
    exact hnext

/-- A call returns what the reader returns. -/
theorem call (h : Reads r sent₀ a w) (c : ReadCall) :
    ∃ w', Evals (c.run r) w (a.call c).1 w' ∧ Reads r sent₀ (a.call c).2 w' := by
  cases c with
  | getc =>
      obtain ⟨w', he, hr, _⟩ := h.getc
      refine ⟨w', he.bind ?_, ?_⟩
      · cases hrest : a.rest <;> simp [Reader.call, hrest]
      · cases hrest : a.rest <;> simpa [Reader.call, hrest] using hr
  | peek =>
      obtain ⟨w', he, hr, hpush⟩ := h.getc
      cases hrest : a.rest with
      | nil =>
          rw [hrest] at he hr
          refine ⟨w', he.bind (by simp [Reader.call, hrest]), ?_⟩
          simpa [Reader.call, hrest] using hr
      | cons c u =>
          obtain ⟨hrel, hpush⟩ := hpush c u hrest
          rw [hrest] at he hr
          by_cases hff : c = 255
          · refine ⟨w', he.bind (by simp [Reader.call, hrest, hff]), ?_⟩
            simpa [Reader.call, hrest, hff] using hr
          · -- the byte is pushed back
            have hrel' : Relay r w w' ([] ++ [c]) [] := hrel
            obtain ⟨w₂, he₂, h₂⟩ := connUngetc_eval hrel' (evals_ok he h.ok) hpush
            have hok₂ := evals_ok he₂ (evals_ok he h.ok)
            refine ⟨w₂, he.bind ?_, ?_⟩
            · rw [if_neg (by simpa using hff)]
              exact he₂.bind (by simp [Reader.call, hrest])
            · have hsame := h.relay h₂ hok₂ (h.rest.symm.trans h₂.unread)
              have hself : { a.take ([] : Bytes).length with copied := a.copied ++ [] } = a := by
                simp [Reader.take]
              rw [hself] at hsame
              simpa [Reader.call, hrest, hff] using hsame
  | gets lenLimit buf =>
      have hlen : buf.len + 1 + Reader.lineRoom lenLimit buf a.rest = lenLimit ∨
          lenLimit < buf.len + 1 ∧ (w.unread r).length < Reader.lineRoom lenLimit buf a.rest := by
        rw [h.rest]
        unfold Reader.lineRoom
        split <;> omega
      obtain ⟨got, w', he, hread⟩ := connGets_eval h.ok h.ready hlen
      rw [h.rest] at he
      refine ⟨w', he.bind (by simp [Reader.call]), ?_⟩
      have hrest := hread.unread
      rw [h.rest] at hrest
      have hgot : a.rest = got ++ w'.unread r := h.rest.symm.trans hread.moved.unread
      by_cases hend : (scanLine (Reader.lineRoom lenLimit buf a.rest) a.rest).1 = .eof
      · have hnil : w'.unread r = [] := hrest.trans (scanLine_eof hend)
        rw [hnil, List.append_nil] at hgot
        have hnext := h.finish_read (hgot ▸ hread.moved) (evals_ok he h.ok)
          (hread.eof (by rw [h.rest]; exact hend))
        simpa [Reader.call, hend] using hnext
      · have hnext :=
          h.relay_read (hread.relay (by rw [h.rest]; exact hend)) (evals_ok he h.ok) hgot
        have hlength : got.length = a.rest.length -
            (scanLine (Reader.lineRoom lenLimit buf a.rest) a.rest).2.2.length := by
          rw [← hrest, congrArg List.length hgot, List.length_append]
          omega
        rw [hlength] at hnext
        simpa [Reader.call, hend] using hnext
  | read len =>
      cases hended : a.ended with
      | true =>
          refine ⟨w, (connRead_closed (h.ended hended).1).bind (by simp [Reader.call, hended]), ?_⟩
          simpa [Reader.call, hended] using h
      | false =>
          have hread := connRead_eval len h.ok (h.live hended)
          rw [h.rest] at hread
          by_cases hfits : len ≤ a.rest.length
          · rw [if_pos hfits] at hread
            obtain ⟨w', he, hr⟩ := hread
            refine ⟨w', he.bind (by simp [Reader.call, hended, hfits]), ?_⟩
            have hnext := h.relay_read hr (evals_ok he h.ok) (h.rest.symm.trans hr.unread)
            rw [List.length_take_of_le hfits] at hnext
            simpa [Reader.call, hended, hfits] using hnext
          · rw [if_neg hfits] at hread
            obtain ⟨w', he, hm, hdead⟩ := hread
            refine ⟨w', he.bind (by simp [Reader.call, hended, hfits]), ?_⟩
            have hnext := h.finish_read hm (evals_ok he h.ok) hdead
            simpa [Reader.call, hended, hfits] using hnext
  | copy len =>
      obtain ⟨ret, w', he, ho⟩ := connCopy_eval len h.ok (.inr (h.willing.takes len))
      have hok := evals_ok he h.ok
      cases ho with
      | done hr hle ht =>
          rw [h.rest] at hr hle
          refine ⟨w', he.bind (by simp [Reader.call, hle]), ?_⟩
          have hnext := h.relay hr hok (h.rest.symm.trans hr.unread)
          rw [List.length_take_of_le hle] at hnext
          simpa [Reader.call, hle] using hnext
      | ended k hm hdead hk hle ht hlive =>
          -- the stream has ended, so all of it was copied
          have hall : k = a.rest.length := by
            rw [← h.rest]
            refine h.ready.elim (fun hl => (hlive hl).symm) fun hnil => ?_
            rw [hnil, List.length_nil] at hle ⊢
            omega
          rw [h.rest, hall, List.take_length] at hm
          have hnot : ¬ len ≤ a.rest.length := by omega
          refine ⟨w', he.bind (by simp [Reader.call, hnot]), ?_⟩
          have hnext := h.finish hm hok hdead
          simpa [Reader.call, hnot] using hnext
      | broken k hb hroom hk => exact absurd (h.willing.takes len k hroom) (by omega)

/-- Calls return what the reader returns. -/
theorem calls (h : Reads r sent₀ a w) (cs : List ReadCall) :
    ∃ w', Evals (readCalls r cs) w (a.calls cs).1 w' ∧ Reads r sent₀ (a.calls cs).2 w' := by
  induction cs generalizing a w with
  | nil => exact ⟨w, .ret _ w, h⟩
  | cons c cs ih =>
      obtain ⟨w₁, he₁, h₁⟩ := h.call c
      obtain ⟨w₂, he₂, h₂⟩ := ih h₁
      exact ⟨w₂, he₁.bind (he₂.bind (.ret _ w₂)), h₂⟩

end Reads

example : ((Reader.init [97, 98, 13, 10, 99]).calls
    [.peek, .getc, .gets 256 strbufInit, .copy 3]).2.copied = [99] := by
  decide

end HttpProxy
