/-
  HttpProxy.Lib.Prog

  Programs over a signature of operations: a free monad with one extra
  constructor `iter` for unbounded loops, so that a `while (1)` of a C function
  is a term of a plain inductive type.  Nothing here runs an operation; the
  client of the library says what an operation does when it interprets a
  program step by step.

  - `Prog.bind` and the `Monad` instance give `do` notation.
  - `Prog.unroll` is the one silent step of a loop.
  - `Prog.Uses p` says that every operation the program can ever perform
    satisfies `p` (an effect typing).
  - `Prog.Wlp S Q s` is the weakest liberal precondition for a specification
    `S` of the operations over a ghost state: the answer of an operation is
    arbitrary up to `S.post`, and `S.pre` has to hold whenever it is performed.

  Both predicates are stable under `bind` and under the steps a machine takes
  (an operation answered, a loop unrolled), which is what an invariant over the
  states of a machine that runs programs needs.
-/

import Mathlib.Logic.Basic

namespace HttpProxy
namespace Lib

/-- A program that performs operations `o : Op`, each answered by a `Res o`, and
    returns a value. -/
inductive Prog (Op : Type) (Res : Op → Type) : Type → Type 1 where
  | ret {α : Type} (a : α) : Prog Op Res α
  | call {α : Type} (o : Op) (k : Res o → Prog Op Res α) : Prog Op Res α
  | iter {α σ β : Type} (body : σ → Prog Op Res (σ ⊕ β)) (s : σ)
      (k : β → Prog Op Res α) : Prog Op Res α

namespace Prog

variable {Op : Type} {Res : Op → Type} {α β γ σ : Type}

/-- Sequential composition. -/
protected def bind {α β : Type} :
    Prog Op Res α → (α → Prog Op Res β) → Prog Op Res β
  | ret a, f => f a
  | call o k, f => call o fun r => (k r).bind f
  | iter body s k, f => iter body s fun b => (k b).bind f

instance : Monad (Prog Op Res) where
  pure := ret
  bind := Prog.bind

/-- Perform one operation and return its answer. -/
def op (o : Op) : Prog Op Res (Res o) := call o ret

/-- `while (1)`: the body continues the loop with `inl` and leaves it with `inr`. -/
def loop (body : σ → Prog Op Res (σ ⊕ β)) (s : σ) : Prog Op Res β :=
  iter body s ret

/-- One iteration of a loop made explicit; other programs are left alone. -/
def unroll {α : Type} : Prog Op Res α → Prog Op Res α
  | iter body s k =>
      (body s).bind fun x => match x with
        | .inl s' => iter body s' k
        | .inr b => k b
  | p => p

@[simp] theorem pure_eq (a : α) : (pure a : Prog Op Res α) = ret a := rfl

@[simp] theorem bind_eq (p : Prog Op Res α) (f : α → Prog Op Res β) :
    p >>= f = p.bind f := rfl

@[simp] theorem ret_bind (a : α) (f : α → Prog Op Res β) :
    (ret a : Prog Op Res α).bind f = f a := rfl

@[simp] theorem call_bind (o : Op) (k : Res o → Prog Op Res α) (f : α → Prog Op Res β) :
    (call o k).bind f = call o fun r => (k r).bind f := rfl

@[simp] theorem iter_bind (body : σ → Prog Op Res (σ ⊕ γ)) (s : σ)
    (k : γ → Prog Op Res α) (f : α → Prog Op Res β) :
    (iter body s k).bind f = iter body s fun b => (k b).bind f := rfl

@[simp] theorem op_bind (o : Op) (f : Res o → Prog Op Res β) :
    (op o : Prog Op Res (Res o)).bind f = call o f := rfl

@[simp] theorem loop_bind (body : σ → Prog Op Res (σ ⊕ α)) (s : σ)
    (f : α → Prog Op Res β) :
    (loop body s).bind f = iter body s f := rfl

-- ============================================================================
-- Effect typing
-- ============================================================================

/-- Every operation the program can perform satisfies `p`. -/
def Uses {α : Type} (p : Op → Prop) : Prog Op Res α → Prop
  | ret _ => True
  | call o k => p o ∧ ∀ r, (k r).Uses p
  | iter body _ k => (∀ s, (body s).Uses p) ∧ ∀ b, (k b).Uses p

@[simp] theorem uses_ret (p : Op → Prop) (a : α) :
    (ret a : Prog Op Res α).Uses p := trivial

@[simp] theorem uses_call (p : Op → Prop) (o : Op) (k : Res o → Prog Op Res α) :
    (call o k).Uses p ↔ p o ∧ ∀ r, (k r).Uses p := Iff.rfl

@[simp] theorem uses_iter (p : Op → Prop) (body : σ → Prog Op Res (σ ⊕ β)) (s : σ)
    (k : β → Prog Op Res α) :
    (iter body s k).Uses p ↔ (∀ s, (body s).Uses p) ∧ ∀ b, (k b).Uses p := Iff.rfl

theorem Uses.bind {α β : Type} {p : Op → Prop} {q : Prog Op Res α}
    {f : α → Prog Op Res β} (hq : q.Uses p) (hf : ∀ a, (f a).Uses p) :
    (q.bind f).Uses p := by
  induction q with
  | ret a => exact hf a
  | call o k ih => exact ⟨hq.1, fun r => ih r (hq.2 r) hf⟩
  | iter body s k _ ihk => exact ⟨hq.1, fun b => ihk b (hq.2 b) hf⟩

theorem Uses.unroll {α : Type} {p : Op → Prop} {q : Prog Op Res α}
    (hq : q.Uses p) : q.unroll.Uses p := by
  cases q with
  | ret a => exact hq
  | call o k => exact hq
  | iter body s k =>
      refine (hq.1 s).bind fun x => ?_
      cases x with
      | inl s' => exact ⟨hq.1, hq.2⟩
      | inr b => exact hq.2 b

-- ============================================================================
-- Weakest liberal preconditions over a ghost state
-- ============================================================================

/-- A specification of the operations over a ghost state `G`: when operation `o`
    may be performed, and how the ghost state may change with the answer. -/
structure Spec (Op : Type) (Res : Op → Type) (G : Type) where
  pre : Op → G → Prop
  post : (o : Op) → Res o → G → G → Prop

variable {G : Type}

/-- The program, started in ghost state `g`, performs operations only where their
    precondition holds, and every result it returns satisfies `Q`. -/
def Wlp {α : Type} (S : Spec Op Res G) : Prog Op Res α → (α → G → Prop) → G → Prop
  | ret a, Q, g => Q a g
  | call o k, Q, g => S.pre o g ∧ ∀ r g', S.post o r g g' → (k r).Wlp S Q g'
  | iter (σ := σ) body s k, Q, g =>
      ∃ J : σ → G → Prop, J s g ∧ ∀ s g, J s g →
        (body s).Wlp S
          (fun x g => match x with
            | .inl s' => J s' g
            | .inr b => (k b).Wlp S Q g) g

@[simp] theorem wlp_ret (S : Spec Op Res G) (a : α) (Q : α → G → Prop) (g : G) :
    (ret a : Prog Op Res α).Wlp S Q g ↔ Q a g := Iff.rfl

@[simp] theorem wlp_call (S : Spec Op Res G) (o : Op) (k : Res o → Prog Op Res α)
    (Q : α → G → Prop) (g : G) :
    (call o k).Wlp S Q g ↔
      S.pre o g ∧ ∀ r g', S.post o r g g' → (k r).Wlp S Q g' := Iff.rfl

theorem Wlp.mono {α : Type} {S : Spec Op Res G} {p : Prog Op Res α}
    {Q Q' : α → G → Prop} {g : G} (h : p.Wlp S Q g) (hQ : ∀ a g, Q a g → Q' a g) :
    p.Wlp S Q' g := by
  induction p generalizing g with
  | ret a => exact hQ a g h
  | call o k ih => exact ⟨h.1, fun r g' hr => ih r (h.2 r g' hr) hQ⟩
  | iter body s k ihb ihk =>
      obtain ⟨J, hJ, hstep⟩ := h
      refine ⟨J, hJ, fun s g hs => ihb s (hstep s g hs) ?_⟩
      intro x g hx
      cases x with
      | inl s' => exact hx
      | inr b => exact ihk b hx hQ

theorem Wlp.bind {α β : Type} {S : Spec Op Res G} {p : Prog Op Res α}
    {f : α → Prog Op Res β} {Q : β → G → Prop} {g : G}
    (h : p.Wlp S (fun a g => (f a).Wlp S Q g) g) : (p.bind f).Wlp S Q g := by
  induction p generalizing g with
  | ret a => exact h
  | call o k ih => exact ⟨h.1, fun r g' hr => ih r (h.2 r g' hr)⟩
  | iter body s k _ ihk =>
      obtain ⟨J, hJ, hstep⟩ := h
      refine ⟨J, hJ, fun s g hs => (hstep s g hs).mono ?_⟩
      intro x g hx
      cases x with
      | inl s' => exact hx
      | inr b => exact ihk b hx

/-- The loop rule: `J` is the invariant at the head of each iteration. -/
theorem Wlp.loop {S : Spec Op Res G} {body : σ → Prog Op Res (σ ⊕ β)} {s : σ}
    {Q : β → G → Prop} {g : G} (J : σ → G → Prop) (hJ : J s g)
    (hstep : ∀ s g, J s g → (body s).Wlp S
      (fun x g => match x with
        | .inl s' => J s' g
        | .inr b => Q b g) g) :
    (loop body s).Wlp S Q g := by
  refine ⟨J, hJ, fun s g hs => (hstep s g hs).mono ?_⟩
  intro x g hx
  cases x with
  | inl s' => exact hx
  | inr b => exact hx

/-- Unrolling a loop keeps the precondition: the silent step of a machine. -/
theorem Wlp.unroll {α : Type} {S : Spec Op Res G} {p : Prog Op Res α}
    {Q : α → G → Prop} {g : G} (h : p.Wlp S Q g) : p.unroll.Wlp S Q g := by
  cases p with
  | ret a => exact h
  | call o k => exact h
  | iter body s k =>
      obtain ⟨J, hJ, hstep⟩ := h
      refine Wlp.bind ((hstep s g hJ).mono ?_)
      intro x g hx
      cases x with
      | inl s' => exact ⟨J, hx, hstep⟩
      | inr b => exact hx

-- ============================================================================
-- Values a program can return
-- ============================================================================

/-- Every value the program returns satisfies `Q`, whatever its operations are answered. -/
def Returns {α : Type} (Q : α → Prop) (p : Prog Op Res α) : Prop :=
  p.Wlp (G := Unit) ⟨fun _ _ => True, fun _ _ _ _ => True⟩ (fun a _ => Q a) ()

@[simp] theorem returns_ret (Q : α → Prop) (a : α) : (ret a : Prog Op Res α).Returns Q ↔ Q a :=
  Iff.rfl

@[simp] theorem returns_call (Q : α → Prop) (o : Op) (k : Res o → Prog Op Res α) :
    (call o k).Returns Q ↔ ∀ r, (k r).Returns Q :=
  ⟨fun h r => h.2 r () trivial, fun h => ⟨trivial, fun r _ _ => h r⟩⟩

theorem Returns.mono {α : Type} {Q Q' : α → Prop} {p : Prog Op Res α} (h : p.Returns Q)
    (hQ : ∀ a, Q a → Q' a) : p.Returns Q' :=
  Wlp.mono h fun a _ => hQ a

theorem Returns.bind {α β : Type} {Q : β → Prop} {p : Prog Op Res α} {f : α → Prog Op Res β}
    (h : p.Returns fun a => (f a).Returns Q) : (p.bind f).Returns Q :=
  Wlp.bind h

theorem Returns.loop {body : σ → Prog Op Res (σ ⊕ β)} {s : σ} {Q : β → Prop} (J : σ → Prop)
    (hJ : J s) (hstep : ∀ s, J s → (body s).Returns fun x => match x with
      | .inl s' => J s'
      | .inr b => Q b) : (loop body s).Returns Q :=
  Wlp.loop (fun s _ => J s) hJ fun s _ => hstep s

theorem Returns.unroll {α : Type} {Q : α → Prop} {p : Prog Op Res α} (h : p.Returns Q) :
    p.unroll.Returns Q :=
  Wlp.unroll h

theorem returns_true {α : Type} (p : Prog Op Res α) : p.Returns fun _ => True := by
  induction p with
  | ret a => trivial
  | call o k ih => exact (returns_call _ _ _).mpr ih
  | iter body s k ihb ihk =>
      refine ⟨fun _ _ => True, trivial, fun s _ _ => Wlp.mono (ihb s) fun x _ _ => ?_⟩
      cases x with
      | inl s' => trivial
      | inr b => exact ihk b

/-- Nothing is known of the value the first part returns. -/
theorem Returns.bind_any {α β : Type} {Q : β → Prop} {p : Prog Op Res α}
    {f : α → Prog Op Res β} (h : ∀ a, (f a).Returns Q) : (p.bind f).Returns Q :=
  Returns.bind ((returns_true p).mono fun a _ => h a)

end Prog
end Lib
end HttpProxy
