/-
  HttpProxy.Stream.Bounded

  net_fetch_http on a stream that need not end.

  `Feed` is one connection whose kernel side is an endless sequence of turns: a
  turn answers EAGAIN some number of times and then delivers a segment, the end
  of the stream or an error.  A finite stream is a sequence that is `closed`
  from some turn on.

  The limit of conn_gets is an equality that is tested before each byte, while
  net_fetch_http and net_fetch_headers append a NUL behind each line without
  testing it.  `netFetchHttpIn` is net_fetch_http with the bound at every append;
  it always returns, with what net_fetch_http returns (`netFetchHttp_bounded`).
-/

import HttpProxy.Stream.HeadRun

namespace HttpProxy

open Lib

-- ============================================================================
-- A connection with an endless script
-- ============================================================================

/-- What `recv` meets once it does not block. -/
inductive Delivery where
  | data (b : UInt8) (bs : Bytes)
  | closed
  | fail

/-- EAGAIN `waits` times, and then a delivery. -/
structure Turn where
  waits : Nat
  what : Delivery

/-- A connection, the turns its descriptor still takes, and the number of bytes
    received so far. -/
structure Feed where
  mainStat : MainStat
  stat : ConnStat
  isOpen : Bool
  io : IoBuf
  turns : Nat → Turn
  received : Nat
  inBounds : io.bufS ≤ io.buf.length ∧ io.buf.length ≤ CONN_IOBUF_SIZE

/-- A turn in front of the others. -/
def before (t : Turn) (turns : Nat → Turn) : Nat → Turn
  | 0 => t
  | n + 1 => turns n

/-- Put what is left of a segment back. -/
def pushTurn : Bytes → (Nat → Turn) → Nat → Turn
  | [], turns => turns
  | b :: bs, turns => before ⟨0, .data b bs⟩ turns

namespace Feed

/-- The turns behind the first. -/
def later (s : Feed) : Nat → Turn := fun n => s.turns (n + 1)

/-- `recv(fd, buf, len, 0)` -/
def recv (s : Feed) (len : Nat) : SysRes × Feed :=
  if !s.isOpen then (.err, s)
  else if len = 0 then (.zero, s)
  else
    match s.turns 0 with
    | ⟨n + 1, what⟩ => (.again, { s with turns := before ⟨n, what⟩ s.later })
    | ⟨0, .closed⟩ => (.zero, s)
    | ⟨0, .fail⟩ => (.err, s)
    | ⟨0, .data b bs⟩ =>
        (.ok ((b :: bs).take len), { s with
          turns := pushTurn ((b :: bs).drop len) s.later
          received := s.received + ((b :: bs).take len).length })

/-- `conn_close` -/
def close (s : Feed) : Feed :=
  if s.stat = .closed then s else { s with stat := .closed, isOpen := false }

/-- Answer one operation of a reader. -/
def step : Machine IoOp IoOp.Res Feed
  | .mainStat, s => some (s.mainStat, s)
  | .stat _, s => some (s.stat, s)
  | .getBuf _, s => some (s.io, s)
  | .setBuf _ io, s =>
      if h : io.bufS ≤ io.buf.length ∧ io.buf.length ≤ CONN_IOBUF_SIZE then
        some ((), { s with io, inBounds := h })
      else none
  | .sys _ (.recv len), s => some (s.recv len)
  | .sys _ (.send _), _ => none
  | .yield _ _, s => some ((0 : Int), s)
  | .close _, s => some ((), s.close)
  | .mark _, s => some ((), s)
  | .log _, s => some ((), s)
  | .ub, _ => none

/-- The bytes in the read buffer. -/
def pending (s : Feed) : Nat := s.io.buf.length - s.io.bufS

/-- Between `s` and `s'`, `n` bytes of the stream have been consumed: they were
    received, or pending before, and are not pending any more. -/
def Takes (s s' : Feed) (n : Nat) : Prop :=
  s.pending + s'.received = s.received + s'.pending + n

end Feed

-- ============================================================================
-- Fetching a head, with the bound at every append
-- ============================================================================

/-- `strbuf_append` to a buffer that stays below `limit`. -/
def strbufAppendBelow (limit : Nat) (buf : Strbuf) (ch : UInt8) : Io Strbuf :=
  if buf.len + 1 < limit then return strbufAppend buf ch else Io.ub

/-- A round of the loop of `conn_gets`, with the bound. -/
def connGetsRound (r : Role) (lenLimit : Nat) (x : Int × Strbuf) :
    Io ((Int × Strbuf) ⊕ (Int × Strbuf)) := do
  if x.2.len + 1 = lenLimit then return .inr (-1, x.2)
  else do
    let ch ← connGetc r
    if ch = -1 then return .inr (-1, x.2)
    else if ch = 10 then return .inr x
    else if ch = 13 then do
      let ch ← connGetc r
      if ch = -1 then return .inr (-1, x.2)
      else if ch = 10 then return .inr x
      else do
        connUngetc r
        return .inr x
    else do
      let buf ← strbufAppendBelow lenLimit x.2 (intToChar ch)
      return .inl (x.1 + 1, buf)

/-- `conn_gets` with the bound. -/
def connGetsIn (r : Role) (lenLimit : Nat) (buf : Strbuf) : Io (Int × Strbuf) :=
  Prog.loop (connGetsRound r lenLimit) (0, buf)

/-- A round of the loop of `net_fetch_headers`, with the bound. -/
def netFetchHeadersRound (conn : Role) (data : NetData) :
    Io (NetData ⊕ (Int × NetData)) := do
  let p0 := data.buf.len
  let (ret, buf) ← connGetsIn conn HTTP_HEADER_MAXLEN data.buf
  if ret ≤ 0 then return .inr (ret, { data with buf })
  else do
    let buf ← strbufAppendBelow HTTP_HEADER_MAXLEN buf 0
    let (data, ret) := netParseHeader { data with buf } p0
    if ret ≠ 0 then return .inr (-1, data) else return .inl data

/-- `net_fetch_headers` with the bound. -/
def netFetchHeadersIn (conn : Role) (data : NetData) : Io (Int × NetData) :=
  Prog.loop (netFetchHeadersRound conn) data

/-- `net_fetch_http` with the bound. -/
def netFetchHttpIn (conn : Role) (data : NetData) : Io (Int × NetData) := do
  let (ret, buf) ← connGetsIn conn HTTP_HEADER_MAXLEN data.buf
  if ret ≤ 0 then return (ret, { data with buf })
  else
    let buf ← strbufAppendBelow HTTP_HEADER_MAXLEN buf 0
    netFetchHeadersIn conn { data with buf }

section

variable {m : Machine IoOp IoOp.Res Feed} {r : Role} {limit : Nat} {buf : Strbuf}
  {s s' s'' : Feed} {n k : Nat}

-- ============================================================================
-- The bound changes no result
-- ============================================================================

theorem strbufAppendBelow_ret {ch : UInt8} {b : Strbuf}
    (h : Eval m (strbufAppendBelow limit buf ch) s b s') :
    b = strbufAppend buf ch ∧ s' = s := by
  rw [strbufAppendBelow] at h
  split at h
  · exact h.of_ret
  · obtain ⟨x, _⟩ := h.of_call
    exact nomatch x

theorem connGetsIn_erase {y : Int × Strbuf} (h : Eval m (connGetsIn r limit buf) s y s') :
    Eval m (connGets r limit buf) s y s' := by
  apply Eval.loop_mono h
  intro x s y s' hround
  rw [connGetsRound] at hround
  split at hround
  · rename_i hfull
    rw [if_pos hfull]
    exact hround
  · rename_i hfull
    rw [if_neg hfull]
    obtain ⟨ch, s₁, hgetc, hrest⟩ := hround.of_bind
    refine hgetc.bind ?_
    split at hrest
    · rename_i heof
      rw [if_pos heof]
      exact hrest
    · rename_i heof
      rw [if_neg heof]
      split at hrest
      · rename_i hlf
        rw [if_pos hlf]
        exact hrest
      · rename_i hlf
        rw [if_neg hlf]
        split at hrest
        · rename_i hcr
          rw [if_pos hcr]
          exact hrest
        · rename_i hcr
          rw [if_neg hcr]
          obtain ⟨b, s₂, happend, hret⟩ := hrest.of_bind
          obtain ⟨rfl, rfl⟩ := strbufAppendBelow_ret happend
          exact hret

theorem netFetchHeadersIn_erase {data : NetData} {y : Int × NetData}
    (h : Eval m (netFetchHeadersIn r data) s y s') : Eval m (netFetchHeaders r data) s y s' := by
  apply Eval.loop_mono h
  intro data s y s' hround
  obtain ⟨⟨ret, buf⟩, s₁, hgets, hrest⟩ := hround.of_bind
  refine (connGetsIn_erase hgets).bind ?_
  dsimp only at hrest ⊢
  split at hrest
  · rename_i hstop
    rw [if_pos hstop]
    exact hrest
  · rename_i hstop
    rw [if_neg hstop]
    obtain ⟨b, s₂, happend, hparse⟩ := hrest.of_bind
    obtain ⟨rfl, rfl⟩ := strbufAppendBelow_ret happend
    exact hparse

theorem netFetchHttpIn_erase {data : NetData} {y : Int × NetData}
    (h : Eval m (netFetchHttpIn r data) s y s') : Eval m (netFetchHttp r data) s y s' := by
  obtain ⟨⟨ret, buf⟩, s₁, hgets, hrest⟩ := h.of_bind
  refine (connGetsIn_erase hgets).bind ?_
  dsimp only at hrest ⊢
  split at hrest
  · rename_i hstop
    rw [if_pos hstop]
    exact hrest
  · rename_i hstop
    rw [if_neg hstop]
    obtain ⟨b, s₂, happend, hheaders⟩ := hrest.of_bind
    obtain ⟨rfl, rfl⟩ := strbufAppendBelow_ret happend
    exact netFetchHeadersIn_erase hheaders

-- ============================================================================
-- Consuming
-- ============================================================================

theorem Feed.Takes.refl (s : Feed) : s.Takes s 0 := by
  rw [Takes]
  omega

theorem Feed.Takes.trans (h : s.Takes s' n) (h' : s'.Takes s'' k) : s.Takes s'' (n + k) := by
  rw [Takes] at *
  omega

theorem Feed.close_takes (s : Feed) : s.Takes s.close 0 := by
  have hio : s.close.io = s.io ∧ s.close.received = s.received := by
    rw [close]
    split
    · exact ⟨rfl, rfl⟩
    · exact ⟨rfl, rfl⟩
  rw [Takes, pending, pending, hio.1, hio.2]
  omega

/-- One round of `conn_try_io` that does not wait. -/
theorem connTryIo_last {q : SysReq} {canBlock : Bool} {o : Option Bytes} {res : SysRes}
    (hrun : s.mainStat = .running) (hsys : Feed.step (.sys r q) s = some (res, s'))
    (h : match res with
      | .ok bs => o = some bs
      | .zero => o = none
      | .err => o = none
      | .again => canBlock = false ∧ o = none) :
    Eval Feed.step (connTryIo r q canBlock) s o s' := by
  apply Eval.loop_inr
  refine .call (congrArg (fun x => some (x, s)) hrun) (.call hsys ?_)
  cases res with
  | ok bs =>
      subst h
      exact .ret _ _
  | zero =>
      subst h
      exact .ret _ _
  | err =>
      subst h
      exact .ret _ _
  | again =>
      obtain ⟨rfl, rfl⟩ := h
      exact .ret _ _

theorem Turn.of_waits {t : Turn} (h : t.waits = n) : t = ⟨n, t.what⟩ := by
  subst h
  rfl

/-- `recv` returns after the waits of the turn, with no more than was asked for. -/
theorem connTryIo_feed (s : Feed) (r : Role) {len : Nat} (canBlock : Bool) (hlen : len ≠ 0) :
    ∃ o s', Eval Feed.step (connTryIo r (.recv len) canBlock) s o s' ∧ s'.io = s.io ∧
      s'.received = s.received + (o.getD []).length ∧
      ∀ bs ∈ o, bs ≠ [] ∧ bs.length ≤ len := by
  cases hrun : s.mainStat with
  | exiting =>
      refine ⟨none, s, ?_, rfl, rfl, by simp⟩
      apply Eval.loop_inr
      exact .call (congrArg (fun x => some (x, s)) hrun) (.ret _ _)
  | running =>
  cases hopen : s.isOpen with
  | false =>
      have hsys : Feed.step (.sys r (.recv len)) s = some (.err, s) := by
        simp [Feed.step, Feed.recv, hopen]
      exact ⟨none, s, connTryIo_last hrun hsys rfl, rfl, rfl, by simp⟩
  | true =>
  generalize hw : (s.turns 0).waits = waits
  induction waits generalizing s with
  | zero =>
      have hturn := Turn.of_waits hw
      cases hwhat : (s.turns 0).what with
      | closed =>
          rw [hwhat] at hturn
          have hsys : Feed.step (.sys r (.recv len)) s = some (.zero, s) := by
            simp [Feed.step, Feed.recv, hopen, hlen, hturn]
          exact ⟨none, s, connTryIo_last hrun hsys rfl, rfl, rfl, by simp⟩
      | fail =>
          rw [hwhat] at hturn
          have hsys : Feed.step (.sys r (.recv len)) s = some (.err, s) := by
            simp [Feed.step, Feed.recv, hopen, hlen, hturn]
          exact ⟨none, s, connTryIo_last hrun hsys rfl, rfl, rfl, by simp⟩
      | data b bs =>
          rw [hwhat] at hturn
          have hsys : Feed.step (.sys r (.recv len)) s =
              some (.ok ((b :: bs).take len), { s with
                turns := pushTurn ((b :: bs).drop len) s.later
                received := s.received + ((b :: bs).take len).length }) := by
            simp [Feed.step, Feed.recv, hopen, hlen, hturn]
          refine ⟨some ((b :: bs).take len), _, connTryIo_last hrun hsys rfl, rfl, rfl, ?_⟩
          rintro _ ⟨⟩
          exact ⟨by simp [hlen], List.length_take_le len (b :: bs)⟩
  | succ waits ih =>
      have hturn := Turn.of_waits hw
      have hsys : Feed.step (.sys r (.recv len)) s =
          some (.again, { s with turns := before ⟨waits, (s.turns 0).what⟩ s.later }) := by
        rw [Feed.step, Feed.recv, hturn]
        simp [hopen, hlen]
      cases canBlock with
      | false => exact ⟨none, _, connTryIo_last hrun hsys ⟨rfl, rfl⟩, rfl, rfl, by simp⟩
      | true =>
          obtain ⟨o, s', he, hio, hreceived, hsome⟩ :=
            ih { s with turns := before ⟨waits, (s.turns 0).what⟩ s.later } hrun hopen rfl
          refine ⟨o, s', Eval.loop_inl ?_ he, hio, hreceived, hsome⟩
          exact .call (congrArg (fun x => some (x, s)) hrun) (.call hsys (.call rfl (.ret _ _)))

/-- A store into the read buffer. -/
theorem Feed.setBuf_eval {α : Type} {io : IoBuf} {p : Io α} {a : α}
    (h : io.bufS ≤ io.buf.length ∧ io.buf.length ≤ CONN_IOBUF_SIZE)
    (hp : Eval Feed.step p { s with io, inBounds := h } a s') :
    Eval Feed.step (.call (.setBuf r io) fun _ => p) s a s' :=
  .call (dif_pos h) hp

/-- `conn_getc` consumes one byte, which can be put back, or fails. -/
theorem connGetc_feed (s : Feed) (r : Role) :
    ∃ ch s', Eval Feed.step (connGetc r) s ch s' ∧
      (s.Takes s' 1 ∧ 0 < s'.io.bufS ∨ ch = -1 ∧ s.Takes s' 0) := by
  cases hc : s.io.buf[s.io.bufS]? with
  | some c =>
      obtain ⟨hlt, _⟩ := List.getElem?_eq_some_iff.mp hc
      have hin : s.io.bufS + 1 ≤ s.io.buf.length ∧ s.io.buf.length ≤ CONN_IOBUF_SIZE :=
        ⟨hlt, s.inBounds.2⟩
      refine ⟨charToInt c, { s with
        io := { s.io with bufS := s.io.bufS + 1 }, inBounds := hin }, ?_, .inl ⟨?_, ?_⟩⟩
      · refine .call rfl ?_
        rw [Prog.ret_bind, hc]
        exact Feed.setBuf_eval hin (.ret _ _)
      · show s.io.buf.length - s.io.bufS + s.received =
          s.received + (s.io.buf.length - (s.io.bufS + 1)) + 1
        omega
      · show 0 < s.io.bufS + 1
        omega
  | none =>
      have hall := List.getElem?_eq_none_iff.mp hc
      have hnone : s.pending = 0 := by
        rw [Feed.pending]
        omega
      have hempty : ({ s.io with buf := [], bufS := 0 } : IoBuf).bufS ≤ 0 ∧
          0 ≤ CONN_IOBUF_SIZE := ⟨Nat.le_refl 0, Nat.zero_le _⟩
      generalize hs₁ : ({ s with
        io := { s.io with buf := [], bufS := 0 }
        inBounds := hempty } : Feed) = s₁
      have hreceived₁ : s₁.received = s.received := by rw [← hs₁]
      have hio₁ : s₁.io = { s.io with buf := [], bufS := 0 } := by rw [← hs₁]
      obtain ⟨o, s', he, hio, hreceived, hsome⟩ :=
        connTryIo_feed s₁ r (s₁.stat != .closed) (show CONN_IOBUF_SIZE ≠ 0 by decide)
      have hgetc {a : Int} {s'' : Feed} (hrest : Eval Feed.step (o.elim
            (do
              Io.close r
              return (-1 : Int))
            (fun bs => do
              let b ← Io.getBuf r
              Io.setBuf r { b with buf := bs, bufS := 1, rx := toInt32 (b.rx + 1) }
              return charToInt (bs.headD 0))) s' a s'') :
          Eval Feed.step (connGetc r) s a s'' := by
        refine .call rfl ?_
        rw [Prog.ret_bind, hc]
        refine Feed.setBuf_eval hempty ?_
        rw [hs₁]
        refine .call rfl ?_
        refine he.bind ?_
        cases o with
        | none => exact hrest
        | some bs => exact hrest
      cases o with
      | none =>
          refine ⟨-1, s'.close, hgetc (.call rfl (.ret _ _)), .inr ⟨rfl, ?_⟩⟩
          have hclose := s'.close_takes
          have hzero : s'.pending = 0 := by rw [Feed.pending, hio, hio₁]; rfl
          rw [Feed.Takes] at *
          simp only [Option.getD_none, List.length_nil] at hreceived
          omega
      | some bs =>
          obtain ⟨hne, hle⟩ := hsome bs rfl
          have hpos := List.length_pos_iff.mpr hne
          have hin : 1 ≤ bs.length ∧ bs.length ≤ CONN_IOBUF_SIZE := ⟨hpos, hle⟩
          refine ⟨charToInt (bs.headD 0), { s' with
            io := { s'.io with buf := bs, bufS := 1, rx := toInt32 (s'.io.rx + 1) }
            inBounds := hin }, hgetc (.call rfl (Feed.setBuf_eval hin (.ret _ _))), .inl ⟨?_, ?_⟩⟩
          · show s.pending + s'.received = s.received + (bs.length - 1) + 1
            rw [Option.getD_some] at hreceived
            omega
          · exact Nat.one_pos

/-- `conn_ungetc` puts the byte of the last `conn_getc` back. -/
theorem connUngetc_feed (h : s.Takes s' (n + 1)) (hpos : 0 < s'.io.bufS) (r : Role) :
    ∃ s'', Eval Feed.step (connUngetc r) s' () s'' ∧ s.Takes s'' n := by
  have hin : s'.io.bufS - 1 ≤ s'.io.buf.length ∧ s'.io.buf.length ≤ CONN_IOBUF_SIZE :=
    ⟨Nat.le_trans (Nat.sub_le _ _) s'.inBounds.1, s'.inBounds.2⟩
  refine ⟨{ s' with
    io := { s'.io with bufS := s'.io.bufS - 1, rx := toInt32 (s'.io.rx - 1) }
    inBounds := hin }, ?_, ?_⟩
  · refine .call rfl ?_
    show Eval Feed.step (if s'.io.bufS = 0 then _ else _) _ _ _
    rw [if_neg (Nat.ne_of_gt hpos)]
    exact .call (dif_pos hin) (.ret _ _)
  · show s.pending + s'.received =
      s.received + (s'.io.buf.length - (s'.io.bufS - 1)) + n
    have hle := s'.inBounds.1
    rw [Feed.Takes, Feed.pending, Feed.pending] at h
    rw [Feed.pending]
    omega

-- ============================================================================
-- conn_gets
-- ============================================================================

/-- What the loop of `conn_gets` returns from a buffer of length `len` on, when
    `count` bytes have been appended: at most two bytes that end the line are consumed
    without being appended, and a line below the limit leaves room for a NUL. -/
structure Gets (limit len : Nat) (count : Int) (s : Feed) (ret : Int) (buf : Strbuf)
    (s' : Feed) : Prop where
  takes : ∃ n, s.Takes s' n ∧ n + len ≤ buf.len + 2
  below : buf.len < limit
  room : 0 < ret → buf.len + 1 < limit
  longer : len ≤ buf.len
  ret : ret + len ≤ buf.len + count

theorem connGetsLoop_feed (s : Feed) (r : Role) {count : Int} (hlen : buf.len < limit)
    (hpos : 0 ≤ count) :
    ∃ ret b s', Eval Feed.step (Prog.loop (connGetsRound r limit) (count, buf)) s (ret, b) s' ∧
      Gets limit buf.len count s ret b s' := by
  -- the room that is left decreases with every byte appended
  generalize hroom : limit - buf.len = room
  induction room generalizing s count buf with
  | zero => omega
  | succ room ih =>
  by_cases hfull : buf.len + 1 = limit
  · refine ⟨-1, buf, s, Eval.loop_inr ?_, ⟨0, .refl s, by omega⟩, hlen, by omega, by omega,
      by omega⟩
    rw [connGetsRound, if_pos hfull]
    exact .ret _ _
  obtain ⟨ch, s₁, hgetc, htake⟩ := connGetc_feed s r
  have hround {y : (Int × Strbuf) ⊕ (Int × Strbuf)} {s' : Feed}
      (hrest : Eval Feed.step (if ch = -1 then return .inr (-1, buf)
        else if ch = 10 then return .inr (count, buf)
        else if ch = 13 then do
          let ch ← connGetc r
          if ch = -1 then return .inr (-1, buf)
          else if ch = 10 then return .inr (count, buf)
          else do
            connUngetc r
            return .inr (count, buf)
        else do
          let buf ← strbufAppendBelow limit buf (intToChar ch)
          return .inl (count + 1, buf)) s₁ y s') :
      Eval Feed.step (connGetsRound r limit (count, buf)) s y s' := by
    rw [connGetsRound, if_neg hfull]
    exact hgetc.bind hrest
  by_cases heof : ch = -1
  · have htakes : ∃ n, s.Takes s₁ n ∧ n + buf.len ≤ buf.len + 2 := by
      rcases htake with ⟨h, _⟩ | ⟨_, h⟩
      · exact ⟨1, h, by omega⟩
      · exact ⟨0, h, by omega⟩
    refine ⟨-1, buf, s₁, Eval.loop_inr (hround ?_), htakes, hlen, by omega, by omega, by omega⟩
    rw [if_pos heof]
    exact .ret _ _
  obtain ⟨htake, hback⟩ : s.Takes s₁ 1 ∧ 0 < s₁.io.bufS := by
    rcases htake with h | ⟨h, _⟩
    · exact h
    · exact absurd h heof
  have hline : 0 < count → buf.len + 1 < limit := by omega
  by_cases hlf : ch = 10
  · refine ⟨count, buf, s₁, Eval.loop_inr (hround ?_), ⟨1, htake, by omega⟩, hlen, hline,
      by omega, by omega⟩
    rw [if_neg heof, if_pos hlf]
    exact .ret _ _
  by_cases hcr : ch = 13
  · obtain ⟨ch₂, s₂, hgetc₂, htake₂⟩ := connGetc_feed s₁ r
    have hround₂ {y : (Int × Strbuf) ⊕ (Int × Strbuf)} {s' : Feed}
        (hrest : Eval Feed.step (if ch₂ = -1 then return .inr (-1, buf)
          else if ch₂ = 10 then return .inr (count, buf)
          else do
            connUngetc r
            return .inr (count, buf)) s₂ y s') :
        Eval Feed.step (connGetsRound r limit (count, buf)) s y s' := by
      apply hround
      rw [if_neg heof, if_neg hlf, if_pos hcr]
      exact hgetc₂.bind hrest
    by_cases heof₂ : ch₂ = -1
    · have htakes : ∃ n, s.Takes s₂ n ∧ n + buf.len ≤ buf.len + 2 := by
        rcases htake₂ with ⟨h, _⟩ | ⟨_, h⟩
        · exact ⟨1 + 1, htake.trans h, by omega⟩
        · exact ⟨1 + 0, htake.trans h, by omega⟩
      refine ⟨-1, buf, s₂, Eval.loop_inr (hround₂ ?_), htakes, hlen, by omega, by omega,
        by omega⟩
      rw [if_pos heof₂]
      exact .ret _ _
    obtain ⟨htake₂, hback₂⟩ : s₁.Takes s₂ 1 ∧ 0 < s₂.io.bufS := by
      rcases htake₂ with h | ⟨h, _⟩
      · exact h
      · exact absurd h heof₂
    by_cases hlf₂ : ch₂ = 10
    · refine ⟨count, buf, s₂, Eval.loop_inr (hround₂ ?_), ⟨1 + 1, htake.trans htake₂, by omega⟩,
        hlen, hline, by omega, by omega⟩
      rw [if_neg heof₂, if_pos hlf₂]
      exact .ret _ _
    · obtain ⟨s₃, hungetc, htake₃⟩ := connUngetc_feed (htake.trans htake₂) hback₂ r
      refine ⟨count, buf, s₃, Eval.loop_inr (hround₂ ?_), ⟨1, htake₃, by omega⟩, hlen, hline,
        by omega, by omega⟩
      rw [if_neg heof₂, if_neg hlf₂]
      exact hungetc.bind (.ret _ _)
  · have hbelow : buf.len + 1 < limit := by omega
    have hnext : (strbufAppend buf (intToChar ch)).len = buf.len + 1 := strbufAppend_len
    have hlt : (strbufAppend buf (intToChar ch)).len < limit := by omega
    obtain ⟨ret, b, s', he, hgets⟩ := ih s₁ hlt
      (Int.add_nonneg hpos Int.one_nonneg) (by omega)
    have hret := hgets.ret
    have hlonger := hgets.longer
    obtain ⟨n, hn, hle⟩ := hgets.takes
    refine ⟨ret, b, s', Eval.loop_inl (hround ?_) he, ⟨1 + n, htake.trans hn, by omega⟩,
      hgets.below, hgets.room, by omega, by omega⟩
    rw [if_neg heof, if_neg hlf, if_neg hcr, strbufAppendBelow, if_pos hbelow]
    exact .ret _ _

theorem connGets_feed (s : Feed) (r : Role) (hlen : buf.len < limit) :
    ∃ ret b s', Eval Feed.step (connGetsIn r limit buf) s (ret, b) s' ∧
      Gets limit buf.len 0 s ret b s' :=
  connGetsLoop_feed s r hlen (Int.le_refl 0)

-- ============================================================================
-- net_fetch_http
-- ============================================================================

/-- A head has been fetched: twice the growth of the buffer bounds what was consumed,
    up to two bytes that end a line. -/
structure Fetches (len : Nat) (s : Feed) (data : NetData) (s' : Feed) : Prop where
  takes : ∃ n, s.Takes s' n ∧ n + 2 * len ≤ 2 * data.buf.len + 2
  below : data.buf.len < HTTP_HEADER_MAXLEN
  longer : len ≤ data.buf.len

theorem Gets.fetches {ret : Int} {b : Strbuf} {data : NetData} {len : Nat}
    (h : Gets HTTP_HEADER_MAXLEN len 0 s ret b s') (hdata : data.buf.len = b.len) :
    Fetches len s data s' := by
  obtain ⟨n, hn, hle⟩ := h.takes
  have hlonger := h.longer
  refine ⟨⟨n, hn, ?_⟩, ?_, ?_⟩
  · omega
  · rw [hdata]
    exact h.below
  · omega

/-- Behind a line and its NUL. -/
theorem Gets.trans_fetches {ret : Int} {b : Strbuf} {data : NetData} {len : Nat}
    (h : Gets HTTP_HEADER_MAXLEN len 0 s ret b s') (hpos : 0 < ret)
    (h' : Fetches (b.len + 1) s' data s'') : Fetches len s data s'' := by
  obtain ⟨n, hn, hle⟩ := h.takes
  obtain ⟨k, hk, hle'⟩ := h'.takes
  have hret := h.ret
  have hlonger := h'.longer
  exact ⟨⟨n + k, hn.trans hk, by omega⟩, h'.below, by omega⟩

theorem strbufAppendBelow_eval {ch : UInt8} (h : buf.len + 1 < limit) :
    Eval m (strbufAppendBelow limit buf ch) s (strbufAppend buf ch) s := by
  rw [strbufAppendBelow, if_pos h]
  exact .ret _ _

theorem netFetchHeaders_feed (s : Feed) (r : Role) (data : NetData)
    (hlen : data.buf.len < HTTP_HEADER_MAXLEN) :
    ∃ ret data' s', Eval Feed.step (netFetchHeadersIn r data) s (ret, data') s' ∧
      Fetches data.buf.len s data' s' := by
  generalize hroom : HTTP_HEADER_MAXLEN - data.buf.len = room
  induction room using Nat.strongRecOn generalizing s data with
  | ind room ih =>
  obtain ⟨ret, b, s₁, hgetsIn, hgets⟩ := connGets_feed s r hlen
  by_cases hstop : ret ≤ 0
  · refine ⟨ret, { data with buf := b }, s₁, Eval.loop_inr (hgetsIn.bind ?_), hgets.fetches rfl⟩
    show Eval _ (if ret ≤ 0 then _ else _) _ _ _
    rw [if_pos hstop]
    exact .ret _ _
  have hpos : 0 < ret := by omega
  have hbelow := hgets.room hpos
  have hline := hgets.ret
  have hparse := netParseHeader_len { data with buf := strbufAppend b 0 } data.buf.len
  generalize hx : netParseHeader { data with buf := strbufAppend b 0 } data.buf.len = x at hparse
  obtain ⟨data₁, ret₁⟩ := x
  have hlen₁ : data₁.buf.len = b.len + 1 := hparse.trans strbufAppend_len
  have hround {y : NetData ⊕ (Int × NetData)} {s' : Feed}
      (hrest : Eval Feed.step (if ret₁ ≠ 0 then return .inr (-1, data₁) else return .inl data₁)
        s₁ y s') : Eval Feed.step (netFetchHeadersRound r data) s y s' := by
    refine hgetsIn.bind ?_
    show Eval _ (if ret ≤ 0 then _ else _) _ _ _
    rw [if_neg hstop]
    refine (strbufAppendBelow_eval hbelow).bind ?_
    show Eval _ (match netParseHeader { data with buf := strbufAppend b 0 } data.buf.len with
      | (data, ret) =>
          if ret ≠ 0 then (return .inr (-1, data) : Io (NetData ⊕ (Int × NetData)))
          else return .inl data) _ _ _
    rw [hx]
    exact hrest
  by_cases hbad : ret₁ ≠ 0
  · refine ⟨-1, data₁, s₁, Eval.loop_inr (hround ?_), hgets.trans_fetches hpos
      ⟨⟨0, .refl s₁, by omega⟩, by omega, by omega⟩⟩
    rw [if_pos hbad]
    exact .ret _ _
  · obtain ⟨ret', data', s', he, hfetches⟩ :=
      ih (HTTP_HEADER_MAXLEN - data₁.buf.len) (by omega) s₁ data₁ (by omega) rfl
    rw [hlen₁] at hfetches
    refine ⟨ret', data', s', Eval.loop_inl (hround ?_) he, hgets.trans_fetches hpos hfetches⟩
    rw [if_neg hbad]
    exact .ret _ _

/-- `net_fetch_http` returns, no append ever finds the limit reached, and no more than
    `2 * HTTP_HEADER_MAXLEN` bytes are consumed. -/
theorem netFetchHttp_bounded (heap : Nat → Bytes) (s : Feed) (r : Role) :
    ∃ ret data s', Eval Feed.step (netFetchHttpIn r (netDataInit heap)) s (ret, data) s' ∧
      Eval Feed.step (netFetchHttp r (netDataInit heap)) s (ret, data) s' ∧
      data.buf.len ≤ HTTP_HEADER_MAXLEN - 1 ∧
      ∃ n, s.Takes s' n ∧ n ≤ 2 * HTTP_HEADER_MAXLEN := by
  have hfetch : ∃ ret data s',
      Eval Feed.step (netFetchHttpIn r (netDataInit heap)) s (ret, data) s' ∧
      Fetches (netDataInit heap).buf.len s data s' := by
    have hempty : (netDataInit heap).buf.len < HTTP_HEADER_MAXLEN := by
      show strbufInit.len < _
      decide
    obtain ⟨ret, b, s₁, hgetsIn, hgets⟩ := connGets_feed s r hempty
    by_cases hstop : ret ≤ 0
    · refine ⟨ret, { netDataInit heap with buf := b }, s₁, hgetsIn.bind ?_, hgets.fetches rfl⟩
      show Eval _ (if ret ≤ 0 then _ else _) _ _ _
      rw [if_pos hstop]
      exact .ret _ _
    · have hpos : 0 < ret := by omega
      have hbelow := hgets.room hpos
      have hlen₁ : (strbufAppend b 0).len = b.len + 1 := strbufAppend_len
      obtain ⟨ret', data, s', he, hfetches⟩ := netFetchHeaders_feed s₁ r
        { netDataInit heap with buf := strbufAppend b 0 } (by rw [hlen₁]; exact hbelow)
      rw [hlen₁] at hfetches
      refine ⟨ret', data, s', hgetsIn.bind ?_, hgets.trans_fetches hpos hfetches⟩
      show Eval _ (if ret ≤ 0 then _ else _) _ _ _
      rw [if_neg hstop]
      exact (strbufAppendBelow_eval hbelow).bind he
  obtain ⟨ret, data, s', he, hfetches⟩ := hfetch
  have hbelow := hfetches.below
  obtain ⟨n, hn, hle⟩ := hfetches.takes
  exact ⟨ret, data, s', he, netFetchHttpIn_erase he, by omega, n, hn, by omega⟩

end

end HttpProxy
