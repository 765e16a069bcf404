/-
  HttpProxy.Core.Rules

  Every system call of a handler is made by `conn_try_io`.  `IoRules K` says that `K`
  holds of `conn_try_io` and of the operations that neither move bytes nor wait, and is
  kept by sequences and by loops that end once `main_stat` is EXITING; then it holds of
  all of core/conn_io.c and of the handlers of core/net_handle.c and core/net_http.c.
-/

import HttpProxy.Core.Ends

namespace HttpProxy

open Lib

/-- The operation is neither a system call nor a wait. -/
def IoOp.Plain : IoOp → Prop
  | .sys _ _ => False
  | .yield _ _ => False
  | _ => True

/-- `K` holds of what handlers are made of. -/
structure IoRules (K : (α : Type) → Io α → Prop) : Prop where
  ret : ∀ (α : Type) (a : α), K α (.ret a)
  bind : ∀ (α β : Type) (p : Io α) (f : α → Io β), K α p → (∀ a, K β (f a)) → K β (p.bind f)
  loop : ∀ (σ β : Type) (body : σ → Io (σ ⊕ β)) (s : σ), (∀ s, K (σ ⊕ β) (body s)) →
    (∀ ix, EndsAnywhere ix (Prog.loop body s)) → K β (Prog.loop body s)
  op : ∀ o : IoOp, o.Plain → K o.Res (Prog.op o)
  tryIo : ∀ (r : Role) (q : SysReq) (canBlock : Bool), K (Option Bytes) (connTryIo r q canBlock)

namespace IoRules

variable {K : (α : Type) → Io α → Prop} (h : IoRules K) (r : Role)
include h

-- ============================================================================
-- core/conn_io.c
-- ============================================================================

theorem stat : K ConnStat (Io.stat r) := h.op (.stat r) trivial

theorem close : K Unit (Io.close r) := h.op (.close r) trivial

theorem getBuf : K IoBuf (Io.getBuf r) := h.op (.getBuf r) trivial

theorem setBuf (b : IoBuf) : K Unit (Io.setBuf r b) := h.op (.setBuf r b) trivial

theorem mark (a : Ans) : K Unit (Io.mark a) := h.op (.mark a) trivial

theorem connOpen : K Bool (connOpen r) := h.bind _ _ _ _ (h.stat r) fun _ => h.ret _ _

/-- The connection is closed, and the call fails. -/
theorem fails {α : Type} (a : α) : K α ((Io.close r).bind fun _ => .ret a) :=
  h.bind _ _ _ _ (h.close r) fun _ => h.ret _ _

theorem connGetc : K Int (connGetc r) := by
  refine h.bind _ _ _ _ (h.getBuf r) fun b => ?_
  split
  · exact h.bind _ _ _ _ (h.setBuf r _) fun _ => h.ret _ _
  · refine h.bind _ _ _ _ (h.setBuf r _) fun _ => h.bind _ _ _ _ (h.connOpen r) fun canBlock => ?_
    refine h.bind _ _ _ _ (h.tryIo r _ canBlock) fun res => ?_
    cases res with
    | none => exact h.fails r _
    | some bs =>
        refine h.bind _ _ _ _ (h.getBuf r) fun b => ?_
        exact h.bind _ _ _ _ (h.setBuf r _) fun _ => h.ret _ _

theorem connUngetc : K Unit (connUngetc r) := by
  refine h.bind _ _ _ _ (h.getBuf r) fun b => ?_
  split
  · exact h.ret _ _
  · exact h.setBuf r _

theorem connGets (lenLimit : Nat) (buf : Strbuf) : K (Int × Strbuf) (connGets r lenLimit buf) := by
  refine h.loop _ _ _ _ (fun x => ?_) fun ix =>
    (connGets_ends ix r lenLimit buf).mono fun _ _ _ _ => trivial
  split
  · exact h.ret _ _
  · refine h.bind _ _ _ _ (h.connGetc r) fun ch => ?_
    split
    · exact h.ret _ _
    · split
      · exact h.ret _ _
      · split
        · refine h.bind _ _ _ _ (h.connGetc r) fun ch' => ?_
          split
          · exact h.ret _ _
          · split
            · exact h.ret _ _
            · exact h.bind _ _ _ _ (h.connUngetc r) fun _ => h.ret _ _
        · exact h.ret _ _

theorem connWriteLoop (data : Bytes) : K Int (connWriteLoop r data) := by
  refine h.loop _ _ _ _ (fun data => ?_) fun ix =>
    (connWriteLoop_ends ix r data).mono fun _ _ _ _ => trivial
  split
  · exact h.ret _ _
  · refine h.bind _ _ _ _ (h.connOpen r) fun canBlock => ?_
    refine h.bind _ _ _ _ (h.tryIo r _ canBlock) fun res => ?_
    cases res with
    | none => exact h.fails r _
    | some bs =>
        refine h.bind _ _ _ _ (h.getBuf r) fun b => ?_
        exact h.bind _ _ _ _ (h.setBuf r _) fun _ => h.ret _ _

theorem connWrite (data : Bytes) : K Int (connWrite r data) := by
  refine h.bind _ _ _ _ (h.stat r) fun st => ?_
  cases st with
  | closed => exact h.fails r _
  | used => exact h.connWriteLoop r data
  | free => exact h.connWriteLoop r data

theorem connWriteN (data : Bytes) (n : Int) : K Int (connWriteN r data n) := by
  unfold HttpProxy.connWriteN
  split
  · exact h.bind _ _ _ _ (h.op .ub trivial) fun e => Empty.elim e
  · exact h.connWrite r _

theorem connAdvance (n : Int) : K Unit (connAdvance r n) :=
  h.bind _ _ _ _ (h.getBuf r) fun _ => h.setBuf r _

theorem connCopyLoop (out inp : Role) (len : Int) : K Int (connCopyLoop out inp len) := by
  refine h.loop _ _ _ _ (fun len => ?_) fun ix => connCopyLoop_endsAnywhere ix out inp len
  split
  · exact h.ret _ _
  · refine h.bind _ _ _ _ (h.getBuf inp) fun b => h.bind _ _ _ _ (h.setBuf inp _) fun _ => ?_
    refine h.bind _ _ _ _ (h.connOpen inp) fun canBlock => ?_
    refine h.bind _ _ _ _ (h.tryIo inp _ canBlock) fun res => ?_
    cases res with
    | none => exact h.fails inp _
    | some bs =>
        refine h.bind _ _ _ _ (h.getBuf inp) fun b => h.bind _ _ _ _ (h.setBuf inp _) fun _ => ?_
        refine h.bind _ _ _ _ (h.connWriteN out bs _) fun ret => ?_
        split
        · exact h.ret _ _
        · exact h.bind _ _ _ _ (h.connAdvance inp _) fun _ => h.ret _ _

theorem connCopy (out inp : Role) (len : Int) : K Int (connCopy out inp len) := by
  refine h.bind _ _ _ _ (h.getBuf inp) fun b => ?_
  split
  · refine h.bind _ _ _ _ (h.connWriteN out _ _) fun _ => ?_
    exact h.bind _ _ _ _ (h.connAdvance inp _) fun _ => h.connCopyLoop out inp _
  · exact h.connCopyLoop out inp _

-- ============================================================================
-- core/net_handle.c and core/net_http.c
-- ============================================================================

theorem netFetchHeaders (data : NetData) : K (Int × NetData) (netFetchHeaders r data) := by
  refine h.loop _ _ _ _ (fun data => h.bind _ _ _ _ (h.connGets r _ _) fun x => ?_) fun ix =>
    netFetchHeaders_ends ix r data
  obtain ⟨ret, buf⟩ := x
  dsimp only
  split
  · exact h.ret _ _
  · split <;> exact h.ret _ _

theorem netFetchHttp (data : NetData) : K (Int × NetData) (netFetchHttp r data) := by
  refine h.bind _ _ _ _ (h.connGets r _ _) fun x => ?_
  obtain ⟨ret, buf⟩ := x
  dsimp only
  split
  · exact h.ret _ _
  · exact h.netFetchHeaders r _

theorem netBadRequest : K Unit (netBadRequest r) := by
  refine h.bind _ _ _ _ (h.stat r) fun st => ?_
  have hanswer : K Unit ((Io.mark .bad400).bind fun _ =>
      (HttpProxy.connWrite r msg400).bind fun _ => Io.close r) :=
    h.bind _ _ _ _ (h.mark _) fun _ => h.bind _ _ _ _ (h.connWrite r _) fun _ => h.close r
  cases st with
  | closed => exact h.ret _ _
  | used => exact hanswer
  | free => exact hanswer

theorem netBadGateway : K Unit (netBadGateway r) := by
  refine h.bind _ _ _ _ (h.stat r) fun st => ?_
  have hanswer : K Unit ((Io.mark .bad502).bind fun _ =>
      (HttpProxy.connWrite r msg502).bind fun _ => .ret ()) :=
    h.bind _ _ _ _ (h.mark _) fun _ => h.bind _ _ _ _ (h.connWrite r _) fun _ => h.ret _ _
  cases st with
  | closed => exact h.ret _ _
  | used => exact hanswer
  | free => exact hanswer

theorem netTransferChunks (dst src : Role) (buf : Strbuf) :
    K (Int × Strbuf) (netTransferChunks dst src buf) := by
  refine h.loop _ _ _ _ (fun buf => h.bind _ _ _ _ (h.connGets src _ _) fun x => ?_) fun ix =>
    netTransferChunks_ends ix dst src buf
  obtain ⟨ret, buf⟩ := x
  dsimp only
  split
  · exact h.ret _ _
  · refine h.bind _ _ _ _ (h.connWrite dst _) fun ret => ?_
    split
    · exact h.ret _ _
    · split
      · exact h.ret _ _
      · refine h.bind _ _ _ _ (h.connCopy dst src _) fun ret => ?_
        split <;> exact h.ret _ _

theorem netTransferTrailer (dst src : Role) (buf : Strbuf) :
    K Int (netTransferTrailer dst src buf) := by
  refine h.loop _ _ _ _ (fun buf => h.bind _ _ _ _ (h.connGets src _ _) fun x => ?_) fun ix =>
    netTransferTrailer_ends ix dst src buf
  obtain ⟨ret, buf⟩ := x
  dsimp only
  split
  · exact h.ret _ _
  · refine h.bind _ _ _ _ (h.connWrite dst _) fun wret => ?_
    split
    · exact h.ret _ _
    · split <;> exact h.ret _ _

theorem netTransferBody (dst src : Role) (data : NetData) :
    K Int (netTransferBody dst src data) := by
  unfold HttpProxy.netTransferBody
  split
  · exact h.ret _ _
  · split
    · refine h.bind _ _ _ _ (h.netTransferChunks dst src _) fun x => ?_
      obtain ⟨ret, buf⟩ := x
      dsimp only
      split
      · exact h.netTransferTrailer dst src buf
      · exact h.ret _ _
    · unfold netTransferLength
      dsimp only
      split
      · exact h.connCopy dst src _
      · exact h.ret _ _

theorem netRelayHttp10 : K Int netRelayHttp10 := by
  refine h.bind _ _ _ _ (h.loop _ _ _ _ (fun _ => ?_) relayHttp10_ends) fun ret => ?_
  · refine h.bind _ _ _ _ (h.connCopy .client .server _) fun ret => ?_
    split <;> exact h.ret _ _
  · refine h.bind _ _ _ _ (h.close .client) fun _ => ?_
    exact h.bind _ _ _ _ (h.close .server) fun _ => h.ret _ _

theorem netRelayRsp (rsp : NetRsp) : K Int (netRelayRsp rsp) := by
  refine h.bind _ _ _ _ (h.mark _) fun _ => ?_
  refine h.bind _ _ _ _ (h.bind _ _ _ _ (h.connWrite .client _) fun _ => h.ret _ _) fun _ => ?_
  have hlog (ret : Int) : K Int ((Io.getBuf .client).bind fun b =>
      (Io.log b.tx).bind fun _ => .ret (if ret = 0 then rsp.code else ret)) :=
    h.bind _ _ _ _ (h.getBuf .client) fun b =>
      h.bind _ _ _ _ (h.op (.log b.tx) trivial) fun _ => h.ret _ _
  dsimp only
  split
  · exact h.bind _ _ _ _ (h.netTransferBody .client .server _) hlog
  · exact h.bind _ _ _ _ h.netRelayHttp10 hlog

theorem netHttpRspHandler (heap : Nat → Bytes) : K Int (netHttpRspHandler heap) := by
  refine h.bind _ _ _ _ (h.getBuf .client) fun b => h.bind _ _ _ _ (h.setBuf .client _) fun _ => ?_
  refine h.bind _ _ _ _ (h.netFetchHttp .server _) fun x => ?_
  obtain ⟨ret, data⟩ := x
  have hfailed (ret : Int) : K Int ((Io.close .server).bind fun _ =>
      (HttpProxy.netBadGateway .client).bind fun _ => .ret ret) :=
    h.bind _ _ _ _ (h.close .server) fun _ =>
      h.bind _ _ _ _ (h.netBadGateway .client) fun _ => h.ret _ _
  dsimp only
  split
  · exact hfailed ret
  · split
    · exact hfailed _
    · exact h.netRelayRsp _

theorem netTunnel (out inp : Role) : K Int (netTunnel out inp) := by
  refine h.loop _ _ _ _ (fun _ => h.bind _ _ _ _ (h.connCopy out inp _) fun ret => ?_) fun ix =>
    netTunnel_ends ix out inp
  split <;> exact h.ret _ _

theorem rspHandler (heap : Nat → Bytes) (kind : HandlerKind) : K Int (rspHandler heap kind) := by
  cases kind with
  | http => exact h.netHttpRspHandler heap
  | connect => exact h.bind _ _ _ _ (h.mark _) fun _ => h.netTunnel .client .server

end IoRules

end HttpProxy
