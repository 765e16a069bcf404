/-
  HttpProxy.Lib.Eval

  Big-step evaluation of programs on a deterministic machine: `m o s` is the
  answer of operation `o` in state `s` and the state after it, or `none` where
  the operation has no defined behaviour.  `Eval m p s a s'` says that `p`,
  started in `s`, returns `a` in `s'`; a program that runs for ever or meets
  undefined behaviour evaluates to nothing.

  - `Eval.det`: there is one result.
  - `Eval.bind`, `Eval.of_bind`: composition and its inverse.
  - `Eval.loop_inl`, `Eval.loop_inr`, `Eval.of_loop`: one round of a loop.
  - `Eval.loop_inv`: the invariant rule for a loop that is known to return; it
    comes from `of_wlp` and `wlp_of`, by which the weakest liberal precondition of
    `HttpProxy.Lib.Prog` on a machine is "every result satisfies".
-/

import HttpProxy.Lib.Prog

namespace HttpProxy
namespace Lib

/-- What an operation answers in a state, and the state after it. -/
abbrev Machine (Op : Type) (Res : Op → Type) (S : Type) : Type :=
  (o : Op) → S → Option (Res o × S)

namespace Prog

variable {Op : Type} {Res : Op → Type} {S α β γ σ : Type}

/-- Composition is associative. -/
theorem bind_assoc {α β γ : Type} (p : Prog Op Res α) (f : α → Prog Op Res β)
    (g : β → Prog Op Res γ) : (p.bind f).bind g = p.bind fun a => (f a).bind g := by
  induction p with
  | ret a => rfl
  | call o k ih =>
      simp only [call_bind]
      congr 1
      funext r
      exact ih r f
  | iter body s k _ ihk =>
      simp only [iter_bind]
      congr 1
      funext b
      exact ihk b f

/-- Unrolling the loop a composed program starts with. -/
theorem unroll_iter_bind {α β γ : Type} (body : σ → Prog Op Res (σ ⊕ β)) (s : σ)
    (k : β → Prog Op Res α) (f : α → Prog Op Res γ) :
    ((iter body s k).bind f).unroll = (iter body s k).unroll.bind f := by
  simp only [iter_bind, unroll, bind_assoc]
  congr 1
  funext x
  cases x with
  | inl s' => rfl
  | inr b => rfl

end Prog

variable {Op : Type} {Res : Op → Type} {S α β σ : Type}

/-- `p`, started in the first state, returns `a` in the second. -/
inductive Eval (m : Machine Op Res S) {α : Type} : Prog Op Res α → S → α → S → Prop where
  | ret (a : α) (s : S) : Eval m (.ret a) s a s
  | call {o : Op} {k : Res o → Prog Op Res α} {r : Res o} {s s' s'' : S} {a : α} :
      m o s = some (r, s') → Eval m (k r) s' a s'' → Eval m (.call o k) s a s''
  | iter {σ β : Type} {body : σ → Prog Op Res (σ ⊕ β)} {x : σ} {k : β → Prog Op Res α}
      {s s' : S} {a : α} :
      Eval m (Prog.iter body x k).unroll s a s' → Eval m (.iter body x k) s a s'

namespace Eval

variable {m : Machine Op Res S}

theorem of_ret {a b : α} {s s' : S} (h : Eval m (.ret a) s b s') : b = a ∧ s' = s := by
  cases h
  exact ⟨rfl, rfl⟩

theorem of_call {o : Op} {k : Res o → Prog Op Res α} {s s'' : S} {a : α}
    (h : Eval m (.call o k) s a s'') :
    ∃ r s', m o s = some (r, s') ∧ Eval m (k r) s' a s'' := by
  cases h with
  | call hm hk => exact ⟨_, _, hm, hk⟩

theorem of_iter {body : σ → Prog Op Res (σ ⊕ β)} {x : σ} {k : β → Prog Op Res α} {s s' : S}
    {a : α} (h : Eval m (.iter body x k) s a s') :
    Eval m (Prog.iter body x k).unroll s a s' := by
  cases h with
  | iter hu => exact hu

/-- An operation with a defined answer. -/
theorem call_iff {o : Op} {k : Res o → Prog Op Res α} {x : Res o} {s s₁ s' : S} {a : α}
    (h : m o s = some (x, s₁)) : Eval m (.call o k) s a s' ↔ Eval m (k x) s₁ a s' := by
  refine ⟨fun he => ?_, fun he => .call h he⟩
  obtain ⟨y, s₂, hy, hk⟩ := he.of_call
  have hxy := h.symm.trans hy
  rw [Option.some.injEq, Prod.mk.injEq] at hxy
  obtain ⟨rfl, rfl⟩ := hxy
  exact hk

/-- A program has at most one result. -/
theorem det {p : Prog Op Res α} {s s₁ s₂ : S} {a₁ a₂ : α} (h₁ : Eval m p s a₁ s₁)
    (h₂ : Eval m p s a₂ s₂) : a₁ = a₂ ∧ s₁ = s₂ := by
  induction h₁ with
  | ret a s =>
      obtain ⟨rfl, rfl⟩ := of_ret h₂
      exact ⟨rfl, rfl⟩
  | call hm _ ih =>
      obtain ⟨r, s', hm', hk⟩ := of_call h₂
      rw [hm, Option.some.injEq, Prod.mk.injEq] at hm'
      obtain ⟨rfl, rfl⟩ := hm'
      exact ih hk
  | iter _ ih => exact ih (of_iter h₂)

-- ============================================================================
-- Composition
-- ============================================================================

theorem bind {p : Prog Op Res α} {f : α → Prog Op Res β} {s s' s'' : S} {a : α} {b : β}
    (hp : Eval m p s a s') (hf : Eval m (f a) s' b s'') : Eval m (p.bind f) s b s'' := by
  induction hp with
  | ret a s => exact hf
  | call hm _ ih => exact .call hm (ih hf)
  | iter _ ih =>
      refine .iter ?_
      have hu := ih hf
      rwa [← Prog.unroll_iter_bind] at hu

theorem of_bind {p : Prog Op Res α} {f : α → Prog Op Res β} {s s'' : S} {b : β}
    (h : Eval m (p.bind f) s b s'') : ∃ a s', Eval m p s a s' ∧ Eval m (f a) s' b s'' := by
  generalize hq : p.bind f = q at h
  induction h generalizing p with
  | ret b s =>
      cases p with
      | ret a => exact ⟨a, s, .ret a s, by rw [← Prog.ret_bind a f, hq]; exact .ret b s⟩
      | call o k => exact absurd hq (by simp)
      | iter body x k => exact absurd hq (by simp)
  | call hm hk ih =>
      cases p with
      | ret a =>
          rename_i s _ _ _
          refine ⟨a, s, .ret a s, ?_⟩
          rw [← Prog.ret_bind a f, hq]
          exact .call hm hk
      | call o k =>
          rw [Prog.call_bind, Prog.call.injEq] at hq
          obtain ⟨rfl, hq⟩ := hq
          obtain rfl := eq_of_heq hq
          obtain ⟨a, s', hp, hf⟩ := ih rfl
          exact ⟨a, s', .call hm hp, hf⟩
      | iter body x k => exact absurd hq (by simp)
  | iter hu ih =>
      cases p with
      | ret a =>
          rename_i s _ _
          refine ⟨a, s, .ret a s, ?_⟩
          rw [← Prog.ret_bind a f, hq]
          exact .iter hu
      | call o k => exact absurd hq (by simp)
      | iter body x k =>
          obtain ⟨a, s', hp, hf⟩ := ih (by rw [← Prog.unroll_iter_bind, hq])
          exact ⟨a, s', .iter hp, hf⟩

/-- Behind a part that is known to return, only the rest matters. -/
theorem bind_iff {p : Prog Op Res α} {f : α → Prog Op Res β} {s s' s'' : S} {a : α} {b : β}
    (hp : Eval m p s a s') : Eval m (p.bind f) s b s'' ↔ Eval m (f a) s' b s'' := by
  refine ⟨fun h => ?_, hp.bind⟩
  obtain ⟨a', s₁, hp', hf⟩ := h.of_bind
  obtain ⟨rfl, rfl⟩ := hp.det hp'
  exact hf

-- ============================================================================
-- Loops
-- ============================================================================

variable {body : σ → Prog Op Res (σ ⊕ β)} {x : σ} {s s' s₁ : S} {b : β}

/-- A round that leaves the loop. -/
theorem loop_inr (h : Eval m (body x) s (.inr b) s') : Eval m (Prog.loop body x) s b s' :=
  .iter (bind h (.ret b s'))

/-- A round that goes on. -/
theorem loop_inl {x' : σ} (h : Eval m (body x) s (.inl x') s₁)
    (h' : Eval m (Prog.loop body x') s₁ b s') : Eval m (Prog.loop body x) s b s' :=
  .iter (bind h h')

/-- The first round of a loop that returns. -/
theorem of_loop (h : Eval m (Prog.loop body x) s b s') :
    Eval m (body x) s (.inr b) s' ∨
      ∃ x' s₁, Eval m (body x) s (.inl x') s₁ ∧ Eval m (Prog.loop body x') s₁ b s' := by
  obtain ⟨y, s₁, hy, hrest⟩ := of_bind (of_iter h)
  cases y with
  | inl x' => exact .inr ⟨x', s₁, hy, hrest⟩
  | inr b' =>
      obtain ⟨rfl, rfl⟩ := of_ret hrest
      exact .inl hy

/-- Behind a round that goes on, only the rest of the loop matters. -/
theorem loop_iff {x' : σ} (h : Eval m (body x) s (.inl x') s₁) :
    Eval m (Prog.loop body x) s b s' ↔ Eval m (Prog.loop body x') s₁ b s' := by
  refine ⟨fun hl => ?_, loop_inl h⟩
  rcases of_loop hl with hout | ⟨x₂, s₂, hround, hrest⟩
  · exact nomatch (h.det hout).1
  · obtain ⟨hx, rfl⟩ := h.det hround
    obtain rfl := Sum.inl.inj hx
    exact hrest

-- ============================================================================
-- Weakest liberal preconditions on a machine
-- ============================================================================

/-- The operations of a machine as a specification. -/
def spec (m : Machine Op Res S) : Prog.Spec Op Res S where
  pre _ _ := True
  post o r s s' := m o s = some (r, s')

theorem of_wlp {p : Prog Op Res α} {Q : α → S → Prop} {s s' : S} {a : α}
    (h : p.Wlp (spec m) Q s) (he : Eval m p s a s') : Q a s' := by
  induction he with
  | ret a s => exact h
  | call hm _ ih => exact ih (h.2 _ _ hm)
  | iter _ ih => exact ih h.unroll

theorem wlp_of {p : Prog Op Res α} {Q : α → S → Prop} {s : S}
    (h : ∀ a s', Eval m p s a s' → Q a s') : p.Wlp (spec m) Q s := by
  induction p generalizing s with
  | ret a => exact h a s (.ret a s)
  | call o k ih =>
      refine ⟨trivial, fun r s' hm => ih r fun a s'' hk => h a s'' (.call hm hk)⟩
  | iter body x k ihb ihk =>
      -- the invariant says that the rest of the loop only returns what `Q` allows
      refine ⟨fun x s => ∀ a s', Eval m (.iter body x k) s a s' → Q a s', h, ?_⟩
      intro x s hx
      refine ihb x fun y s₁ hy => ?_
      cases y with
      | inl x' => exact fun a s' hrest => hx a s' (.iter (bind hy hrest))
      | inr b => exact ihk b fun a s' hrest => hx a s' (.iter (bind hy hrest))

/-- The invariant rule: `J` holds at the head of every round. -/
theorem loop_inv (J : σ → S → Prop) {Q : β → S → Prop} (h : Eval m (Prog.loop body x) s b s')
    (hJ : J x s)
    (hstep : ∀ x s, J x s →
      (∀ x' s', Eval m (body x) s (.inl x') s' → J x' s') ∧
        ∀ b s', Eval m (body x) s (.inr b) s' → Q b s') : Q b s' := by
  refine of_wlp (Prog.Wlp.loop J hJ fun x s hx => wlp_of fun y s' hy => ?_) h
  cases y with
  | inl x' => exact (hstep x s hx).1 x' s' hy
  | inr b => exact (hstep x s hx).2 b s' hy

/-- Replacing the body of a loop by one that has at least its results. -/
theorem loop_mono {body' : σ → Prog Op Res (σ ⊕ β)} (h : Eval m (Prog.loop body x) s b s')
    (hbody : ∀ x s y s', Eval m (body x) s y s' → Eval m (body' x) s y s') :
    Eval m (Prog.loop body' x) s b s' := by
  -- at the head of a round, what the rest returns is what the whole loop returns
  apply loop_inv (fun x₁ s₁ => ∀ b s', Eval m (Prog.loop body' x₁) s₁ b s' →
    Eval m (Prog.loop body' x) s b s') h
  · intro b s' hrest
    exact hrest
  · intro x₁ s₁ hJ
    constructor
    · intro x₂ s₂ hround b s' hrest
      exact hJ b s' (loop_inl (hbody _ _ _ _ hround) hrest)
    · intro b s' hround
      exact hJ b s' (loop_inr (hbody _ _ _ _ hround))

end Eval
end Lib
end HttpProxy
