/-
  HttpProxy.Lib.Halts

  Programs that return.  `p.Halts A Q g` says that `p`, started in ghost state `g`,
  returns after finitely many operations and only with results that satisfy `Q`, as
  long as the operations are answered as `A` allows: the total counterpart of
  `Prog.Wlp`.

  - `Halts.seq`, `Halts.loop`: the rules; a loop needs a variant.
  - `p.Anywhere A Q`: `p` is a loop that halts from whatever state it is entered.
  - `p.Bounded A`: that holds of every loop in `p`.  Such a
    program halts wherever it is (`Bounded.halts`), and is still one after operations
    that have been answered as `A` does not allow.
-/

import HttpProxy.Lib.Eval

namespace HttpProxy
namespace Lib
namespace Prog

variable {Op : Type} {Res : Op → Type} {G α β σ : Type}

/-- How an operation may be answered, and how the ghost state may change with the answer. -/
abbrev Answers (Op : Type) (Res : Op → Type) (G : Type) := (o : Op) → Res o → G → G → Prop

/-- The program returns, with a result that satisfies `Q`. -/
inductive Halts (A : Answers Op Res G) {α : Type} (Q : α → G → Prop) :
    Prog Op Res α → G → Prop where
  | ret {a : α} {g : G} : Q a g → Halts A Q (ret a) g
  | call {o : Op} {k : Res o → Prog Op Res α} {g : G} :
      (∀ r g', A o r g g' → Halts A Q (k r) g') → Halts A Q (call o k) g
  | iter {σ β : Type} {body : σ → Prog Op Res (σ ⊕ β)} {s : σ} {k : β → Prog Op Res α} {g : G} :
      Halts A Q (iter body s k).unroll g → Halts A Q (iter body s k) g

namespace Halts

variable {A : Answers Op Res G} {p : Prog Op Res α} {Q Q' : α → G → Prop} {R : β → G → Prop}
  {g : G}

theorem mono (h : p.Halts A Q g) (hQ : ∀ a g, Q a g → Q' a g) : p.Halts A Q' g := by
  induction h with
  | ret h => exact .ret (hQ _ _ h)
  | call _ ih => exact .call fun r g' hr => ih r g' hr
  | iter _ ih => exact .iter ih

theorem bind {f : α → Prog Op Res β} (h : p.Halts A (fun a g => (f a).Halts A R g) g) :
    (p.bind f).Halts A R g := by
  induction h with
  | ret h => exact h
  | call _ ih => exact .call fun r g' hr => ih r g' hr
  | iter _ ih =>
      rw [← unroll_iter_bind] at ih
      exact .iter ih

theorem seq {f : α → Prog Op Res β} (hp : p.Halts A Q g)
    (hf : ∀ a g', Q a g' → (f a).Halts A R g') : (p.bind f).Halts A R g :=
  (hp.mono hf).bind

/-- The loop rule: `J` is the invariant at the head of each round, and a round that goes on
    makes the variant `v` smaller. -/
theorem loop {body : σ → Prog Op Res (σ ⊕ β)} {s : σ} (J : σ → G → Prop) (v : σ → G → Nat)
    (hJ : J s g)
    (hbody : ∀ s g, J s g →
      (body s).Halts A (Sum.elim (fun s' g' => J s' g' ∧ v s' g' < v s g) R) g) :
    (Prog.loop body s).Halts A R g := by
  induction hn : v s g using Nat.strongRecOn generalizing s g with
  | ind n ih =>
      apply Halts.iter
      apply Halts.bind
      apply (hbody s g hJ).mono
      intro x g' hx
      cases x with
      | inl s' => exact ih _ (hn ▸ hx.2) hx.1 rfl
      | inr b => exact .ret hx

/-- A loop of one round. -/
theorem once {body : σ → Prog Op Res (σ ⊕ β)} {s : σ}
    (hbody : (body s).Halts A (Sum.elim (fun _ _ => False) R) g) :
    (Prog.loop body s).Halts A R g := by
  apply Halts.iter
  apply Halts.bind
  apply hbody.mono
  intro x g' hx
  cases x with
  | inl s' => exact hx.elim
  | inr b => exact .ret hx

end Halts

/-- The program halts from every ghost state and, if it is a loop, from every state of the
    loop; the result may depend on the ghost state it was started in. -/
def Anywhere {α : Type} (A : Answers Op Res G) (Q : G → α → G → Prop) : Prog Op Res α → Prop
  | ret a => ∀ g, (ret a).Halts A (Q g) g
  | call o k => ∀ g, (call o k).Halts A (Q g) g
  | iter body _ k => ∀ s g, (iter body s k).Halts A (Q g) g

theorem Anywhere.mono {A : Answers Op Res G} {Q Q' : G → α → G → Prop} {p : Prog Op Res α}
    (h : p.Anywhere A Q) (hQ : ∀ g a g', Q g a g' → Q' g a g') : p.Anywhere A Q' := by
  cases p with
  | ret a => exact fun g => (h g).mono (hQ g)
  | call o k => exact fun g => (h g).mono (hQ g)
  | iter body s k => exact fun s g => (h s g).mono (hQ g)

theorem Anywhere.halts {A : Answers Op Res G} {Q : G → α → G → Prop} {p : Prog Op Res α}
    (h : p.Anywhere A Q) (g : G) : p.Halts A (Q g) g := by
  cases p with
  | ret a => exact h g
  | call o k => exact h g
  | iter body s k => exact h s g

-- ============================================================================
-- Programs whose loops halt
-- ============================================================================

/-- Every loop in the program halts. -/
def Bounded {α : Type} (A : Answers Op Res G) : Prog Op Res α → Prop
  | ret _ => True
  | call _ k => ∀ r, (k r).Bounded A
  | iter body s k =>
      (∀ s, (body s).Bounded A) ∧ (Prog.loop body s).Anywhere A (fun _ _ _ => True) ∧
        ∀ b, (k b).Bounded A

namespace Bounded

variable {A : Answers Op Res G} {p : Prog Op Res α}

theorem bind {f : α → Prog Op Res β} (hp : p.Bounded A) (hf : ∀ a, (f a).Bounded A) :
    (p.bind f).Bounded A := by
  induction p with
  | ret a => exact hf a
  | call o k ih => exact fun r => ih r (hp r) hf
  | iter body s k _ ihk => exact ⟨hp.1, hp.2.1, fun b => ihk b (hp.2.2 b) hf⟩

theorem unroll (hp : p.Bounded A) : p.unroll.Bounded A := by
  cases p with
  | ret a => exact hp
  | call o k => exact hp
  | iter body s k =>
      apply (hp.1 s).bind
      intro x
      cases x with
      | inl s' => exact hp
      | inr b => exact hp.2.2 b

theorem halts (hp : p.Bounded A) (g : G) : p.Halts A (fun _ _ => True) g := by
  induction p generalizing g with
  | ret a => exact .ret trivial
  | call o k ih => exact .call fun r g' _ => ih r (hp r) g'
  | iter body s k _ ihk =>
      have hloop : ((Prog.loop body s).bind k).Halts A (fun _ _ => True) g := by
        apply Halts.bind
        exact (hp.2.1.halts g).mono fun b g' _ => ihk b (hp.2.2 b) g'
      exact hloop

end Bounded
end Prog
end Lib
end HttpProxy
