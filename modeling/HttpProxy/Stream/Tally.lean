/-
  HttpProxy.Stream.Tally

  `client->tx` as the programs of core/conn_io.c and core/net_http.c keep it: a
  32-bit count of the bytes the client has accepted.

  `tallySpec` follows the field through a program, beside the number of bytes that
  were sent.  Between two waits the field lags behind only from a `send` to the
  addition after it, so at every wait it is exact (`Tally.Exact`), and what
  `net_http_rsp_handler` logs is the number of bytes it has sent as an `int` shows
  it (`netHttpRspHandler_tally`).
-/

import HttpProxy.Core.NetHttp

namespace HttpProxy

open Lib

/-- The field `tx` of the client, and the bytes that were sent since it was 0. -/
structure Tally where
  tx : Int
  sent : Nat

/-- The field shows the bytes that were sent. -/
def Tally.Exact (t : Tally) : Prop := t.tx = toInt32 t.sent

/-- The operations of a coroutine whose server is `srv`.  Connection 0 is the client's, so a
    coroutine without a server must leave it alone; what is logged is the tally. -/
def tallySpec (srv : Nat) (http : Bool) : Prog.Spec IoOp IoOp.Res Tally where
  pre o t := match o with
    | .setBuf .client b => b.tx = toInt32 t.sent
    | .setBuf .server _ => srv ≠ 0
    | .yield _ _ => t.Exact
    | .log size => http = true ∧ size = toInt32 t.sent
    | _ => True
  post o r t t' := match o, r with
    | .getBuf .client, b => b.tx = t.tx ∧ t' = t
    | .setBuf .client b, _ => t' = { t with tx := b.tx }
    | .sys .client (.send _), .ok bs => t' = { t with sent := t.sent + bs.length }
    -- the other coroutine may have run
    | .yield _ _, _ => t'.Exact
    | _, _ => t' = t

/-- Started with an exact tally, the program ends with one. -/
def Keeps (srv : Nat) (http : Bool) {α : Type} (p : Io α) : Prop :=
  ∀ t : Tally, t.Exact → p.Wlp (tallySpec srv http) (fun _ t' => t'.Exact) t

/-- The same of a program that has read `b`. -/
def KeepsFrom (srv : Nat) (http : Bool) (r : Role) (b : IoBuf) {α : Type} (p : Io α) : Prop :=
  ∀ t : Tally, t.Exact → (r = .client → b.tx = t.tx) →
    p.Wlp (tallySpec srv http) (fun _ t' => t'.Exact) t

/-- Adding to a wrapped count wraps as the sum does. -/
theorem toInt32_add (a : Int) (n : Nat) : toInt32 (toInt32 a + n) = toInt32 (a + n) := by
  unfold toInt32
  exact Int.bmod_add_bmod

section

variable {srv : Nat} {http : Bool} {α β σ : Type}

-- ============================================================================
-- Rules
-- ============================================================================

theorem Keeps.ret (a : α) : Keeps srv http (.ret a) := fun _ ht => ht

/-- One program behind another. -/
theorem Keeps.bind {p : Io α} {f : α → Io β} (hp : Keeps srv http p)
    (hf : ∀ a, Keeps srv http (f a)) : Keeps srv http (p.bind f) := by
  intro t ht
  exact Prog.Wlp.bind ((hp t ht).mono fun a t' ht' => hf a t' ht')

/-- By the invariant that the tally is exact at the head of each round. -/
theorem Keeps.loop {body : σ → Io (σ ⊕ β)} {s : σ} (hbody : ∀ s, Keeps srv http (body s)) :
    Keeps srv http (Prog.loop body s) := by
  intro t ht
  refine Prog.Wlp.loop (fun _ t => t.Exact) ht ?_
  intro s t ht
  refine (hbody s t ht).mono fun x t' ht' => ?_
  cases x with
  | inl s' => exact ht'
  | inr b => exact ht'

/-- An operation that neither reads nor counts. -/
theorem Keeps.op {o : IoOp} (hpre : ∀ t : Tally, t.Exact → (tallySpec srv http).pre o t)
    (hpost : ∀ r (t t' : Tally), t.Exact → (tallySpec srv http).post o r t t' → t'.Exact) :
    Keeps srv http (Prog.op o) :=
  fun t ht => ⟨hpre t ht, fun r t' ht' => hpost r t t' ht ht'⟩

theorem keeps_mainStat : Keeps srv http Io.mainStat :=
  .op (fun _ _ => trivial) fun _ _ _ ht heq => heq ▸ ht

theorem keeps_stat (r : Role) : Keeps srv http (Io.stat r) :=
  .op (fun _ _ => trivial) fun _ _ _ ht heq => heq ▸ ht

theorem keeps_close (r : Role) : Keeps srv http (Io.close r) :=
  .op (fun _ _ => trivial) fun _ _ _ ht heq => heq ▸ ht

theorem keeps_mark (a : Ans) : Keeps srv http (Io.mark a) :=
  .op (fun _ _ => trivial) fun _ _ _ ht heq => heq ▸ ht

/-- What is received is not counted. -/
theorem keeps_recv (r : Role) (len : Nat) : Keeps srv http (Io.sys r (.recv len)) := by
  refine .op (fun _ _ => trivial) ?_
  intro res t t' ht heq
  cases r <;> exact heq ▸ ht

/-- The tally is exact at a wait, and the other coroutine leaves it so. -/
theorem keeps_yield (r : Role) (d : Dir) : Keeps srv http (Io.yield r d) :=
  .op (fun _ ht => ht) fun _ _ _ _ ht' => ht'

theorem Keeps.from {r : Role} {b : IoBuf} {p : Io α} (h : Keeps srv http p) :
    KeepsFrom srv http r b p :=
  fun t ht _ => h t ht

/-- The buffer that is read has the count of the tally. -/
theorem Keeps.getBuf {r : Role} {f : IoBuf → Io α} (hf : ∀ b, KeepsFrom srv http r b (f b)) :
    Keeps srv http ((Io.getBuf r).bind f) := by
  intro t ht
  refine ⟨trivial, fun b t' ht' => ?_⟩
  cases r with
  | client =>
      obtain ⟨hb, rfl⟩ := ht'
      exact hf b _ ht fun _ => hb
  | server =>
      obtain rfl : t' = t := ht'
      exact hf b _ ht fun hr => absurd hr (by simp)

/-- What was read is written back with the same count. -/
theorem KeepsFrom.setBuf {r : Role} {b b' : IoBuf} {f : Unit → Io α} (hr : r = .server → srv ≠ 0)
    (htx : b'.tx = b.tx) (hf : Keeps srv http (f ())) :
    KeepsFrom srv http r b ((Io.setBuf r b').bind f) := by
  intro t ht hb
  cases r with
  | client =>
      have hexact : b'.tx = toInt32 t.sent := htx.trans ((hb rfl).trans ht)
      refine ⟨hexact, fun _ t' ht' => ?_⟩
      obtain rfl : t' = { t with tx := b'.tx } := ht'
      exact hf _ hexact
  | server =>
      refine ⟨hr rfl, fun _ t' ht' => ?_⟩
      obtain rfl : t' = t := ht'
      exact hf _ ht

/-- The same at the end of a program. -/
theorem KeepsFrom.write {r : Role} {b b' : IoBuf} (hr : r = .server → srv ≠ 0)
    (htx : b'.tx = b.tx) : KeepsFrom srv http r b (Io.setBuf r b') :=
  KeepsFrom.setBuf (f := .ret) hr htx (.ret ())

-- ============================================================================
-- core/conn_io.c
-- ============================================================================

theorem keeps_connOpen (r : Role) : Keeps srv http (connOpen r) :=
  .bind (keeps_stat r) fun _ => .ret _

/-- conn_try_io for recv neither reads nor sets the count. -/
theorem keeps_connTryIo_recv (r : Role) (len : Nat) (canBlock : Bool) :
    Keeps srv http (connTryIo r (.recv len) canBlock) := by
  refine .loop fun _ => .bind keeps_mainStat fun st => ?_
  cases st with
  | exiting => exact .ret _
  | running =>
      refine .bind (keeps_recv r len) fun res => ?_
      cases res with
      | ok bs => exact .ret _
      | zero => exact .ret _
      | err => exact .ret _
      | again =>
          cases canBlock with
          | false => exact .ret _
          | true => exact .bind (keeps_yield r _) fun _ => .ret _

/-- The last `n` bytes that were sent are not counted yet. -/
def Tally.Behind (t : Tally) (r : Role) (n : Nat) : Prop :=
  match r with
  | .client => ∃ old : Nat, t.tx = toInt32 old ∧ t.sent = old + n
  | .server => t.Exact

/-- Behind a send that went through, the count has still to follow. -/
theorem connTryIo_send_tally (r : Role) (data : Bytes) (canBlock : Bool) {t : Tally}
    (ht : t.Exact) : (connTryIo r (.send data) canBlock).Wlp (tallySpec srv http)
      (fun res t' => res.elim t'.Exact fun bs => t'.Behind r bs.length) t := by
  refine Prog.Wlp.loop (fun _ t => t.Exact) ht ?_
  rintro ⟨⟩ t ht
  refine ⟨trivial, ?_⟩
  intro st t₁ heq
  obtain rfl : t₁ = t := heq
  cases st with
  | exiting => exact ht
  | running =>
      refine ⟨trivial, ?_⟩
      intro res t' hpost
      cases res with
      | ok bs =>
          cases r with
          | client =>
              obtain rfl : t' = { t₁ with sent := t₁.sent + bs.length } := hpost
              exact ⟨t₁.sent, ht, rfl⟩
          | server =>
              obtain rfl : t' = t₁ := hpost
              exact ht
      | zero =>
          obtain rfl : t' = t₁ := by cases r <;> exact hpost
          exact ht
      | err =>
          obtain rfl : t' = t₁ := by cases r <;> exact hpost
          exact ht
      | again =>
          obtain rfl : t' = t₁ := by cases r <;> exact hpost
          cases canBlock with
          | false => exact ht
          | true => exact ⟨ht, fun _ t' ht' => ht'⟩

/-- The client's connection is not that of a server. -/
theorem client_ne_server (h : Role.client = .server) : srv ≠ 0 :=
  absurd h (by simp)

/-- `conn->tx += ret;` -/
theorem count_tally {r : Role} {n : Nat} (hr : r = .server → srv ≠ 0) {t : Tally}
    (h : t.Behind r n) {f : Unit → Io α} (hf : Keeps srv http (f ())) :
    ((Io.getBuf r).bind fun b => (Io.setBuf r { b with tx := toInt32 (b.tx + n) }).bind f).Wlp
      (tallySpec srv http) (fun _ t' => t'.Exact) t := by
  refine ⟨trivial, fun b t' ht' => ?_⟩
  cases r with
  | client =>
      obtain ⟨old, htx, hsent⟩ := h
      obtain ⟨hb, rfl⟩ := ht'
      have hexact : toInt32 (b.tx + n) = toInt32 (t'.sent : Nat) := by
        rw [hb, htx, toInt32_add, hsent, Int.natCast_add]
      refine ⟨hexact, fun _ t₁ ht₁ => ?_⟩
      obtain rfl : t₁ = { t' with tx := toInt32 (b.tx + n) } := ht₁
      exact hf _ hexact
  | server =>
      obtain rfl : t' = t := ht'
      refine ⟨hr rfl, fun _ t₁ ht₁ => ?_⟩
      obtain rfl : t₁ = t' := ht₁
      exact hf _ h

/-- Each round counts what its send was given. -/
theorem keeps_connWriteLoop {r : Role} (hr : r = .server → srv ≠ 0) (data : Bytes) :
    Keeps srv http (connWriteLoop r data) := by
  refine .loop fun data => ?_
  split
  · exact .ret _
  · refine .bind (keeps_connOpen r) fun canBlock => ?_
    intro t ht
    refine Prog.Wlp.bind ((connTryIo_send_tally r data canBlock ht).mono ?_)
    intro res t' ht'
    cases res with
    | none => exact Keeps.bind (keeps_close r) (fun _ => .ret _) t' ht'
    | some bs => exact count_tally hr ht' (.ret _)

theorem keeps_connWrite {r : Role} (hr : r = .server → srv ≠ 0) (data : Bytes) :
    Keeps srv http (connWrite r data) := by
  refine .bind (keeps_stat r) fun st => ?_
  cases st with
  | closed => exact .bind (keeps_close r) fun _ => .ret _
  | used => exact keeps_connWriteLoop hr data
  | free => exact keeps_connWriteLoop hr data

/-- conn_write with a length of its own. -/
theorem keeps_connWriteN {r : Role} (hr : r = .server → srv ≠ 0) (data : Bytes) (n : Int) :
    Keeps srv http (connWriteN r data n) := by
  unfold connWriteN
  split
  · intro t _
    exact ⟨trivial, fun e => nomatch e⟩
  · exact keeps_connWrite hr _

/-- Reading a byte refills the buffer and leaves the count. -/
theorem keeps_connGetc {r : Role} (hr : r = .server → srv ≠ 0) : Keeps srv http (connGetc r) := by
  refine .getBuf fun b => ?_
  split
  · exact .setBuf hr rfl (.ret _)
  · refine .setBuf hr rfl (.bind (keeps_connOpen r) fun canBlock => ?_)
    refine .bind (keeps_connTryIo_recv r _ canBlock) fun res => ?_
    cases res with
    | none => exact .bind (keeps_close r) fun _ => .ret _
    | some bs => exact .getBuf fun b => .setBuf hr rfl (.ret _)

theorem keeps_connUngetc {r : Role} (hr : r = .server → srv ≠ 0) :
    Keeps srv http (connUngetc r) := by
  refine .getBuf fun b => ?_
  split
  · exact (Keeps.ret _).from
  · exact .write hr rfl

/-- By the loop over the bytes of a line. -/
theorem keeps_connGets {r : Role} (hr : r = .server → srv ≠ 0) (lenLimit : Nat) (buf : Strbuf) :
    Keeps srv http (connGets r lenLimit buf) := by
  refine .loop fun x => ?_
  split
  · exact .ret _
  · refine .bind (keeps_connGetc hr) fun ch => ?_
    split
    · exact .ret _
    · split
      · exact .ret _
      · split
        · refine .bind (keeps_connGetc hr) fun ch' => ?_
          split
          · exact .ret _
          · split
            · exact .ret _
            · exact .bind (keeps_connUngetc hr) fun _ => .ret _
        · exact .ret _

/-- A round reads from one side and writes to the other. -/
theorem keeps_connCopyLoop {out inp : Role} (hout : out = .server → srv ≠ 0)
    (hinp : inp = .server → srv ≠ 0) (len : Int) : Keeps srv http (connCopyLoop out inp len) := by
  refine .loop fun len => ?_
  split
  · exact .ret _
  · refine .getBuf fun b => .setBuf hinp rfl (.bind (keeps_connOpen inp) fun canBlock => ?_)
    refine .bind (keeps_connTryIo_recv inp _ canBlock) fun res => ?_
    cases res with
    | none => exact .bind (keeps_close inp) fun _ => .ret _
    | some bs =>
        refine .getBuf fun b => .setBuf hinp rfl (.bind (keeps_connWriteN hout bs _) fun ret => ?_)
        split
        · exact .ret _
        · exact .bind (.getBuf fun b => .write hinp rfl) fun _ => .ret _

/-- The bytes that are buffered are written first, then the loop runs. -/
theorem keeps_connCopy {out inp : Role} (hout : out = .server → srv ≠ 0)
    (hinp : inp = .server → srv ≠ 0) (len : Int) : Keeps srv http (connCopy out inp len) := by
  refine .getBuf fun b => ?_
  dsimp only
  split
  · refine Keeps.from (.bind (keeps_connWriteN hout _ _) fun _ => ?_)
    refine .bind (.getBuf fun b => .write hinp rfl) fun _ => ?_
    exact keeps_connCopyLoop hout hinp _
  · exact (keeps_connCopyLoop hout hinp _).from

-- ============================================================================
-- core/net_handle.c
-- ============================================================================

theorem keeps_netFetchHeaders {r : Role} (hr : r = .server → srv ≠ 0) (data : NetData) :
    Keeps srv http (netFetchHeaders r data) := by
  refine .loop fun data => .bind (keeps_connGets hr _ _) fun x => ?_
  dsimp only
  split
  · exact .ret _
  · split
    · exact .ret _
    · exact .ret _

/-- Fetching a head reads only. -/
theorem keeps_netFetchHttp {r : Role} (hr : r = .server → srv ≠ 0) (data : NetData) :
    Keeps srv http (netFetchHttp r data) := by
  refine .bind (keeps_connGets hr _ _) fun x => ?_
  dsimp only
  split
  · exact .ret _
  · exact keeps_netFetchHeaders hr _

theorem keeps_netBadRequest : Keeps srv http (netBadRequest .client) := by
  have hr : Role.client = .server → srv ≠ 0 := client_ne_server
  have hanswer : Keeps srv http (do
      Io.mark .bad400
      let _ ← connWrite .client msg400
      Io.close .client) :=
    .bind (keeps_mark _) fun _ => .bind (keeps_connWrite hr _) fun _ => keeps_close _
  refine .bind (keeps_stat _) fun st => ?_
  cases st with
  | closed => exact .ret _
  | used => exact hanswer
  | free => exact hanswer

theorem keeps_netBadGateway : Keeps srv http (netBadGateway .client) := by
  have hr : Role.client = .server → srv ≠ 0 := client_ne_server
  have hanswer : Keeps srv http (do
      Io.mark .bad502
      let _ ← connWrite .client msg502
      return ()) :=
    .bind (keeps_mark _) fun _ => .bind (keeps_connWrite hr _) fun _ => .ret _
  refine .bind (keeps_stat _) fun st => ?_
  cases st with
  | closed => exact .ret _
  | used => exact hanswer
  | free => exact hanswer

section

variable {out inp : Role} (hout : out = .server → srv ≠ 0) (hinp : inp = .server → srv ≠ 0)
include hout hinp

/-- The loop over the chunks: a line is forwarded, then its data is copied. -/
theorem keeps_netTransferChunks (buf : Strbuf) :
    Keeps srv http (netTransferChunks out inp buf) := by
  refine .loop fun buf => .bind (keeps_connGets hinp _ _) fun x => ?_
  dsimp only
  split
  · exact .ret _
  · refine .bind (keeps_connWrite hout _) fun ret => ?_
    split
    · exact .ret _
    · split
      · exact .ret _
      · refine .bind (keeps_connCopy hout hinp _) fun ret => ?_
        split
        · exact .ret _
        · exact .ret _

/-- The loop over the trailer lines. -/
theorem keeps_netTransferTrailer (buf : Strbuf) :
    Keeps srv http (netTransferTrailer out inp buf) := by
  refine .loop fun buf => .bind (keeps_connGets hinp _ _) fun x => ?_
  dsimp only
  split
  · exact .ret _
  · refine .bind (keeps_connWrite hout _) fun wret => ?_
    split
    · exact .ret _
    · split
      · exact .ret _
      · exact .ret _

/-- All three ways a body is transferred. -/
theorem keeps_netTransferBody (data : NetData) : Keeps srv http (netTransferBody out inp data) := by
  unfold netTransferBody
  split
  · exact .ret _
  · split
    · refine .bind (keeps_netTransferChunks hout hinp _) fun x => ?_
      dsimp only
      split
      · exact keeps_netTransferTrailer hout hinp _
      · exact .ret _
    · unfold netTransferLength
      dsimp only
      split
      · exact keeps_connCopy hout hinp _
      · exact .ret _

/-- The tunnel of a CONNECT request copies until one side ends. -/
theorem keeps_netTunnel : Keeps srv http (netTunnel out inp) := by
  refine .loop fun _ => .bind (keeps_connCopy hout hinp _) fun ret => ?_
  split
  · exact .ret _
  · exact .ret _

end

-- ============================================================================
-- Response handlers
-- ============================================================================

theorem keeps_netRelayHttp10 (hsrv : srv ≠ 0) : Keeps srv http netRelayHttp10 := by
  refine .bind (.loop fun _ => ?_) fun ret => ?_
  · refine .bind (keeps_connCopy (fun _ => hsrv) (fun _ => hsrv) _) fun ret => ?_
    split
    · exact .ret _
    · exact .ret _
  · exact .bind (keeps_close _) fun _ => .bind (keeps_close _) fun _ => .ret _

/-- What is logged after the body is the tally. -/
theorem keeps_netRelayRsp (hsrv : srv ≠ 0) (rsp : NetRsp) : Keeps srv true (netRelayRsp rsp) := by
  have hlog (ret : Int) : Keeps srv true (do
      let b ← Io.getBuf .client
      Io.log b.tx
      return if ret = 0 then rsp.code else ret) := by
    intro t ht
    refine ⟨trivial, fun b t' hb => ?_⟩
    obtain ⟨htx, rfl⟩ := hb
    have hsize : b.tx = toInt32 t'.sent := htx.trans ht
    refine ⟨⟨rfl, hsize⟩, fun _ t₁ ht₁ => ?_⟩
    obtain rfl : t₁ = t' := ht₁
    exact ht
  have hhead : Keeps srv true (netForwardRspHeader rsp .client) :=
    .bind (keeps_connWrite (fun _ => hsrv) _) fun _ => .ret _
  refine .bind (keeps_mark _) fun _ => .bind hhead fun _ => ?_
  dsimp only
  split
  · exact .bind (keeps_netTransferBody (fun _ => hsrv) (fun _ => hsrv) _) hlog
  · exact .bind (keeps_netRelayHttp10 hsrv) hlog

/-- `net_http_rsp_handler` starts to count where nothing has been sent. -/
theorem netHttpRspHandler_tally (hsrv : srv ≠ 0) (heap : Nat → Bytes) {t : Tally}
    (ht : t.sent = 0) :
    (netHttpRspHandler heap).Wlp (tallySpec srv true) (fun _ t' => t'.Exact) t := by
  have hfailed (ret : Int) : Keeps srv true (do
      Io.close .server
      netBadGateway .client
      return ret) :=
    .bind (keeps_close _) fun _ => .bind keeps_netBadGateway fun _ => .ret _
  refine ⟨trivial, fun b t' hb => ?_⟩
  obtain ⟨-, rfl⟩ := hb
  have hzero : (0 : Int) = toInt32 t'.sent := by
    rw [ht]
    rfl
  refine ⟨hzero, fun _ t₁ ht₁ => ?_⟩
  obtain rfl : t₁ = { t' with tx := 0 } := ht₁
  refine Keeps.bind (keeps_netFetchHttp (fun _ => hsrv) _) (fun x => ?_) _ hzero
  dsimp only
  split
  · exact hfailed _
  · split
    · exact hfailed _
    · exact keeps_netRelayRsp hsrv _

/-- The response side of a tunnel logs nothing. -/
theorem keeps_netConnectRspHandler (hsrv : srv ≠ 0) : Keeps srv false netConnectRspHandler :=
  .bind (keeps_mark _) fun _ => keeps_netTunnel (fun _ => hsrv) fun _ => hsrv

end

end HttpProxy
