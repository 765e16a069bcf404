/-
  HttpProxy.Core.Ends

  The loops of core/conn_io.c and of the handlers end once `main_stat` is EXITING.
  `conn_try_io` then fails without a system call, so a loop can only go on with bytes
  that are in the read buffer of its source already, and every round takes some of them:
  `IoBuf.unread` is the variant.
-/

import HttpProxy.Lib.Halts
import HttpProxy.Core.NetHttp
import Mathlib.Logic.Function.Basic

namespace HttpProxy

open Lib

/-- How many bytes of the buffer have not been taken. -/
def IoBuf.unread (b : IoBuf) : Nat := b.buf.length - b.bufS

/-- What the operations of a handler are answered once `main_stat` is EXITING.  The ghost state
    says how many bytes the buffer of each connection still holds, `ix` which connection a role
    is; when a coroutine goes on after a wait the buffers may be different. -/
def exitAnswers (ix : Role → Nat) : Prog.Answers IoOp IoOp.Res (Nat → Nat)
  | .mainStat, st, g, g' => st = .exiting ∧ g' = g
  | .getBuf r, b, g, g' => b.unread = g (ix r) ∧ g' = g
  | .setBuf r b, _, g, g' => g' = Function.update g (ix r) b.unread
  | .sys _ _, _, _, _ => False
  | .yield _ _, _, _, _ => True
  | .stat _, _, g, g' => g' = g
  | .close _, _, g, g' => g' = g
  | .mark _, _, g, g' => g' = g
  | .log _, _, g, g' => g' = g
  | .ub, _, _, _ => False

section

variable (ix : Role → Nat) (r : Role) (g : Nat → Nat)

/-- The program ends once `main_stat` is EXITING. -/
abbrev Ends {α : Type} (p : Io α) (Q : α → (Nat → Nat) → Prop) : Prop :=
  p.Halts (exitAnswers ix) Q g

theorem getBuf_ends :
    Ends ix g (Io.getBuf r) fun b g' => b.unread = g (ix r) ∧ g' = g :=
  .call fun _ _ h => .ret h

theorem setBuf_ends (b : IoBuf) :
    Ends ix g (Io.setBuf r b) fun _ g' => g' = Function.update g (ix r) b.unread :=
  .call fun _ _ h => .ret h

theorem stat_ends : Ends ix g (Io.stat r) fun _ g' => g' = g :=
  .call fun _ _ h => .ret h

theorem close_ends : Ends ix g (Io.close r) fun _ g' => g' = g :=
  .call fun _ _ h => .ret h

-- ============================================================================
-- core/conn_io.c
-- ============================================================================

theorem connTryIo_ends (q : SysReq) (canBlock : Bool) :
    (connTryIo r q canBlock).Anywhere (exitAnswers ix)
      fun g res g' => res = none ∧ g' = g := by
  intro u g
  apply Prog.Halts.once
  apply Prog.Halts.call
  rintro st g' ⟨rfl, rfl⟩
  exact .ret ⟨rfl, rfl⟩

theorem connOpen_ends : Ends ix g (connOpen r) fun _ g' => g' = g :=
  (stat_ends ix r g).seq fun _ _ h => .ret h

variable {ix r g}

/-- The connection is closed, and the call fails. -/
theorem ends_fails {α : Type} {a : α} {Q : α → (Nat → Nat) → Prop} (h : Q a g) :
    Ends ix g ((Io.close r).bind fun _ => .ret a) Q := by
  apply (close_ends ix r g).seq
  rintro u g' rfl
  exact .ret h

/-- What is behind a `conn_try_io` only matters where it fails. -/
theorem tryIo_ends {α : Type} {q : SysReq} {f : Option Bytes → Io α}
    {Q : α → (Nat → Nat) → Prop} (h : Ends ix g (f none) Q) :
    Ends ix g ((connOpen r).bind fun canBlock => (connTryIo r q canBlock).bind f) Q := by
  apply (connOpen_ends ix r g).seq
  rintro canBlock g' rfl
  apply ((connTryIo_ends ix r q canBlock).halts g').seq
  rintro res g'' ⟨rfl, rfl⟩
  exact h

variable (ix r g)

/-- `conn_getc` fails or takes a byte. -/
theorem connGetc_ends : Ends ix g (connGetc r) fun ch g' =>
    ch = -1 ∨ 0 < g (ix r) ∧ g' (ix r) = g (ix r) - 1 := by
  apply (getBuf_ends ix r g).seq
  rintro b g' ⟨hb, rfl⟩
  split
  · rename_i c hget
    have hlt : b.bufS < b.buf.length := (List.getElem?_eq_some_iff.mp hget).1
    apply (setBuf_ends ix r g' _).seq
    rintro u g'' rfl
    apply Prog.Halts.ret
    rw [Function.update_self, ← hb, IoBuf.unread, IoBuf.unread]
    dsimp only
    omega
  · apply (setBuf_ends ix r g' _).seq
    rintro u g'' rfl
    apply tryIo_ends
    exact ends_fails (.inl rfl)

/-- `conn_ungetc` gives one byte back at most. -/
theorem connUngetc_ends :
    Ends ix g (connUngetc r) fun _ g' => g' (ix r) ≤ g (ix r) + 1 := by
  apply (getBuf_ends ix r g).seq
  rintro b g' ⟨hb, rfl⟩
  split
  · exact .ret (Nat.le_succ _)
  · apply (setBuf_ends ix r g' _).mono
    rintro u g'' rfl
    rw [Function.update_self, ← hb, IoBuf.unread, IoBuf.unread]
    dsimp only
    omega

/-- `conn_gets` fails or takes a byte. -/
theorem connGets_ends (lenLimit : Nat) (buf : Strbuf) :
    (connGets r lenLimit buf).Anywhere (exitAnswers ix)
      fun g x g' => x.1 < 0 ∨ g' (ix r) < g (ix r) := by
  intro x₀ g
  apply Prog.Halts.loop (fun _ g' => g' (ix r) ≤ g (ix r)) (fun _ g' => g' (ix r))
    (Nat.le_refl _)
  intro x g₁ hle
  split
  · exact .ret (.inl (by simp))
  apply (connGetc_ends ix r g₁).seq
  intro ch g₂ hch
  split
  · exact .ret (.inl (by simp))
  rename_i hne
  have htaken := hch.resolve_left hne
  split
  · exact .ret (.inr (by omega))
  split
  · apply (connGetc_ends ix r g₂).seq
    intro ch' g₃ hch'
    split
    · exact .ret (.inl (by simp))
    rename_i hne'
    have htaken' := hch'.resolve_left hne'
    split
    · exact .ret (.inr (by omega))
    · apply (connUngetc_ends ix r g₃).seq
      intro u g₄ hback
      exact .ret (.inr (by omega))
  · exact .ret ⟨by omega, by omega⟩

theorem connWriteLoop_ends (data : Bytes) :
    (connWriteLoop r data).Anywhere (exitAnswers ix) fun g _ g' => g' = g := by
  intro data g
  apply Prog.Halts.once
  split
  · exact .ret rfl
  · apply tryIo_ends
    exact ends_fails rfl

/-- `conn_write` leaves what is in the buffers alone. -/
theorem connWrite_ends (data : Bytes) : Ends ix g (connWrite r data) fun _ g' => g' = g := by
  apply (stat_ends ix r g).seq
  rintro st g' rfl
  cases st with
  | closed => exact ends_fails rfl
  | used => exact (connWriteLoop_ends ix r data).halts g'
  | free => exact (connWriteLoop_ends ix r data).halts g'

theorem connWriteN_ends (data : Bytes) (n : Int) :
    Ends ix g (connWriteN r data n) fun _ g' => g' = g := by
  unfold connWriteN
  split
  · exact .call fun e _ _ => Empty.elim e
  · exact connWrite_ends ix r g _

theorem connAdvance_ends (n : Int) : Ends ix g (connAdvance r n) fun _ g' =>
    g' (ix r) = g (ix r) - n.toNat := by
  apply (getBuf_ends ix r g).seq
  rintro b g' ⟨hb, rfl⟩
  apply (setBuf_ends ix r g' _).mono
  rintro u g'' rfl
  rw [Function.update_self, ← hb, IoBuf.unread, IoBuf.unread]
  dsimp only
  omega

/-- Nothing is received any more: the loop of `conn_copy` fails, unless it has nothing to do. -/
theorem connCopyLoop_ends (out inp : Role) (len : Int) : Ends ix g (connCopyLoop out inp len)
    fun ret g' => ret = -1 ∨ len = 0 ∧ g' = g := by
  apply Prog.Halts.once
  split
  · rename_i hlen
    exact .ret (.inr ⟨hlen, rfl⟩)
  · apply (getBuf_ends ix inp g).seq
    rintro b g' ⟨_, rfl⟩
    apply (setBuf_ends ix inp g' _).seq
    rintro u g'' rfl
    apply tryIo_ends
    exact ends_fails (.inl rfl)

/-- `conn_copy` fails, or takes all it copies from the buffer. -/
theorem connCopy_ends (out inp : Role) (len : Int) : Ends ix g (connCopy out inp len)
    fun ret g' => ret = -1 ∨ g' (ix inp) ≤ g (ix inp) ∧
      (0 < len → g' (ix inp) < g (ix inp)) := by
  apply (getBuf_ends ix inp g).seq
  rintro b g' ⟨hb, rfl⟩
  split
  · rename_i hlt
    apply (connWriteN_ends ix out g' _ _).seq
    rintro ret g₁ rfl
    apply (connAdvance_ends ix inp g₁ _).seq
    intro u g₂ hadv
    apply (connCopyLoop_ends ix g₂ out inp _).mono
    rintro ret' g₃ (hret | ⟨hlen, rfl⟩)
    · exact .inl hret
    · right
      rw [IoBuf.unread] at hb
      split at hlen <;> split at hadv <;> omega
  · apply (connCopyLoop_ends ix g' out inp len).mono
    rintro ret g'' (hret | ⟨hlen, rfl⟩)
    · exact .inl hret
    · exact .inr ⟨Nat.le_refl _, fun hpos => by omega⟩

-- ============================================================================
-- core/net_handle.c and core/net_http.c
-- ============================================================================

/-- The program ends, and if it is a loop it ends from every state of the loop. -/
abbrev EndsAnywhere {α : Type} (p : Io α) : Prop :=
  p.Anywhere (exitAnswers ix) fun _ _ _ => True

theorem connCopyLoop_endsAnywhere (out inp : Role) (len : Int) :
    EndsAnywhere ix (connCopyLoop out inp len) := by
  intro len g
  exact (connCopyLoop_ends ix g out inp len).mono fun _ _ _ => trivial

/-- A loop whose rounds leave it or take bytes from the buffer of `src`. -/
theorem ends_of_rounds {σ β : Type} {body : σ → Io (σ ⊕ β)} {s : σ} (src : Role)
    (hbody : ∀ s g, Ends ix g (body s)
      (Sum.elim (fun _ g' => g' (ix src) < g (ix src)) fun _ _ => True)) :
    EndsAnywhere ix (Prog.loop body s) := by
  intro s g
  apply Prog.Halts.loop (fun _ _ => True) (fun _ g' => g' (ix src)) trivial
  intro s g₁ _
  apply (hbody s g₁).mono
  intro x g₂ hx
  cases x with
  | inl s' => exact ⟨trivial, hx⟩
  | inr b => trivial

theorem netFetchHeaders_ends (data : NetData) :
    EndsAnywhere ix (netFetchHeaders r data) := by
  apply ends_of_rounds ix r
  intro data g
  apply ((connGets_ends ix r _ _).halts g).seq
  rintro ⟨ret, buf⟩ g' htaken
  dsimp only at htaken ⊢
  split
  · exact .ret trivial
  · split
    · exact .ret trivial
    · exact .ret (htaken.resolve_left (by omega))

theorem netTransferChunks_ends (dst src : Role) (buf : Strbuf) :
    EndsAnywhere ix (netTransferChunks dst src buf) := by
  apply ends_of_rounds ix src
  intro buf g
  apply ((connGets_ends ix src _ _).halts g).seq
  rintro ⟨ret, buf⟩ g' htaken
  dsimp only at htaken ⊢
  split
  · exact .ret trivial
  have htaken' := htaken.resolve_left (by omega)
  apply (connWrite_ends ix dst g' _).seq
  rintro ret g'' rfl
  split
  · exact .ret trivial
  split
  · exact .ret trivial
  apply (connCopy_ends ix g'' dst src _).seq
  rintro ret g₃ hcopy
  split
  · exact .ret trivial
  · apply Prog.Halts.ret
    show g₃ (ix src) < g (ix src)
    omega

theorem netTransferTrailer_ends (dst src : Role) (buf : Strbuf) :
    EndsAnywhere ix (netTransferTrailer dst src buf) := by
  apply ends_of_rounds ix src
  intro buf g
  apply ((connGets_ends ix src _ _).halts g).seq
  rintro ⟨ret, buf⟩ g' htaken
  dsimp only at htaken ⊢
  split
  · exact .ret trivial
  have htaken' := htaken.resolve_left (by omega)
  apply (connWrite_ends ix dst g' _).seq
  rintro wret g'' rfl
  split
  · exact .ret trivial
  · split
    · exact .ret trivial
    · exact .ret htaken'

/-- The loop of `net_http_rsp_handler` for HTTP/1.0. -/
theorem relayHttp10_ends : EndsAnywhere ix (Prog.loop (fun _ : Unit => do
    let ret ← connCopy .client .server (64 * 1024)
    if ret < 0 then return .inr (0 : Int) else return .inl ()) ()) := by
  apply ends_of_rounds ix .server
  intro u g
  apply (connCopy_ends ix g .client .server _).seq
  intro ret g' hcopy
  split
  · exact .ret trivial
  · exact .ret ((hcopy.resolve_left (by omega)).2 (by omega))

theorem netTunnel_ends (out inp : Role) : EndsAnywhere ix (netTunnel out inp) := by
  apply ends_of_rounds ix inp
  intro u g
  apply (connCopy_ends ix g out inp _).seq
  intro ret g' hcopy
  split
  · exact .ret trivial
  · exact .ret ((hcopy.resolve_left (by omega)).2 (by omega))

end

end HttpProxy
