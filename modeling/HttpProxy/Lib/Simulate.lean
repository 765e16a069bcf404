/-
  HttpProxy.Lib.Simulate

  One program in two states of a machine.  `Simulates m R p Q` says that whatever `p`
  returns from a state it also returns from every state related by `R` to it, and that
  the states it ends in are related by `Q`, which may depend on the result.

  - `Simulates.ret`, `Simulates.bind`, `Simulates.loop`: the rules, with an invariant
    that relates the two states at the head of a loop.
  - `Simulates.of_evals`, `Simulates.of_iff`: a program whose result is known, or that
    evaluates like another one.
-/

import HttpProxy.Lib.Eval

namespace HttpProxy
namespace Lib

variable {Op : Type} {Res : Op → Type} {S α β σ : Type}

def Simulates (m : Machine Op Res S) (R : S → S → Prop) (p : Prog Op Res α)
    (Q : α → S → S → Prop) : Prop :=
  ∀ s₁ s₂, R s₁ s₂ → ∀ a s₁', Eval m p s₁ a s₁' → ∃ s₂', Eval m p s₂ a s₂' ∧ Q a s₁' s₂'

namespace Simulates

variable {m : Machine Op Res S} {R R' : S → S → Prop} {p : Prog Op Res α}
  {Q Q' : α → S → S → Prop} {T : β → S → S → Prop}

theorem mono (h : Simulates m R p Q) (hQ : ∀ a s₁ s₂, Q a s₁ s₂ → Q' a s₁ s₂) :
    Simulates m R p Q' := by
  intro s₁ s₂ hR a s₁' he
  obtain ⟨s₂', he', hq⟩ := h s₁ s₂ hR a s₁' he
  exact ⟨s₂', he', hQ a s₁' s₂' hq⟩

theorem ret {a : α} (h : ∀ s₁ s₂, R s₁ s₂ → Q a s₁ s₂) : Simulates m R (.ret a) Q := by
  intro s₁ s₂ hR b s₁' he
  obtain ⟨rfl, rfl⟩ := he.of_ret
  exact ⟨s₂, .ret b s₂, h _ s₂ hR⟩

theorem bind {f : α → Prog Op Res β} (hp : Simulates m R p Q)
    (hf : ∀ a, Simulates m (Q a) (f a) T) : Simulates m R (p.bind f) T := by
  intro s₁ s₂ hR b s₁'' he
  obtain ⟨a, s₁', hp₁, hf₁⟩ := he.of_bind
  obtain ⟨s₂', hp₂, hQ⟩ := hp s₁ s₂ hR a s₁' hp₁
  obtain ⟨s₂'', hf₂, hT⟩ := hf a s₁' s₂' hQ b s₁'' hf₁
  exact ⟨s₂'', hp₂.bind hf₂, hT⟩

/-- A program that is known to return in both states. -/
theorem of_evals (h : ∀ s₁ s₂, R s₁ s₂ → ∃ a s₁' s₂', Eval m p s₁ a s₁' ∧ Eval m p s₂ a s₂' ∧
    Q a s₁' s₂') : Simulates m R p Q := by
  intro s₁ s₂ hR a s₁' he
  obtain ⟨b, t₁, t₂, he₁, he₂, hQ⟩ := h s₁ s₂ hR
  obtain ⟨rfl, rfl⟩ := he.det he₁
  exact ⟨t₂, he₂, hQ⟩

/-- A program that goes on from related states like `p'`. -/
theorem of_iff {p' : Prog Op Res α} (h : Simulates m R' p' Q)
    (hgo : ∀ s₁ s₂, R s₁ s₂ → ∃ t₁ t₂, R' t₁ t₂ ∧
      (∀ a s', Eval m p s₁ a s' ↔ Eval m p' t₁ a s') ∧
      ∀ a s', Eval m p s₂ a s' ↔ Eval m p' t₂ a s') : Simulates m R p Q := by
  intro s₁ s₂ hR a s₁' he
  obtain ⟨t₁, t₂, hR', h₁, h₂⟩ := hgo s₁ s₂ hR
  obtain ⟨s₂', he', hQ⟩ := h t₁ t₂ hR' a s₁' ((h₁ a s₁').mp he)
  exact ⟨s₂', (h₂ a s₂').mpr he', hQ⟩

/-- `J` relates the two states at the head of every round. -/
theorem loop {body : σ → Prog Op Res (σ ⊕ β)} {x : σ} (J : σ → S → S → Prop)
    (hbody : ∀ x, Simulates m (J x) (body x) (Sum.elim J T)) :
    Simulates m (J x) (Prog.loop body x) T := by
  intro s₁ s₂ hJ b s₁' he
  -- what the rest of the loop returns in the second state is what the whole loop returns
  apply Eval.loop_inv (fun y t₁ => ∃ t₂, J y t₁ t₂ ∧
    ∀ b t₂', Eval m (Prog.loop body y) t₂ b t₂' → Eval m (Prog.loop body x) s₂ b t₂')
    (Q := fun b t₁ => ∃ t₂, Eval m (Prog.loop body x) s₂ b t₂ ∧ T b t₁ t₂)
    he ⟨s₂, hJ, fun _ _ h => h⟩
  rintro y t₁ ⟨t₂, hy, hrest⟩
  constructor
  · intro y' t₁' hround
    obtain ⟨t₂', hround', hy'⟩ := hbody y t₁ t₂ hy _ _ hround
    exact ⟨t₂', hy', fun b t h => hrest b t (Eval.loop_inl hround' h)⟩
  · intro c t₁' hround
    obtain ⟨t₂', hround', hT⟩ := hbody y t₁ t₂ hy _ _ hround
    exact ⟨t₂', hrest c t₂' (Eval.loop_inr hround'), hT⟩

end Simulates
end Lib
end HttpProxy
