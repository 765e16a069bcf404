/-
  HttpProxy.Lib.Run

  Runs of a machine whose step is a partial function of the state and a choice
  of the environment.  `Run step ok s₀ s` says that `s` is reached from `s₀` by
  steps that each satisfy `ok`; an invariant only has to be kept by such steps.

  `drive` follows a list of choices: a step that needs none is taken with the
  silent choice `tau`, the others take the next choice of the list.  A state
  `drive` ends in is reached by a run, so that a property of a concrete run can
  be computed.
-/

import Mathlib.Logic.Basic

namespace HttpProxy
namespace Lib

universe u v

variable {S : Type u} {A : Type v}

/-- `s` is reached from `s₀` by steps that satisfy `ok`. -/
inductive Run (step : S → A → Option S) (ok : S → A → Prop) (s₀ : S) : S → Prop where
  | start : Run step ok s₀ s₀
  | step {s s' : S} {a : A} : Run step ok s₀ s → ok s a → step s a = some s' →
      Run step ok s₀ s'

namespace Run

variable {step : S → A → Option S} {ok ok' : S → A → Prop} {s₀ s₁ s : S}

/-- What holds at the start and is kept by every step of the run holds in every
    state the run reaches. -/
theorem invariant (I : S → Prop) (hstart : I s₀)
    (hstep : ∀ s s' a, I s → ok s a → step s a = some s' → I s') (h : Run step ok s₀ s) :
    I s := by
  induction h with
  | start => exact hstart
  | step _ hok hs ih => exact hstep _ _ _ ih hok hs

/-- An invariant whose steps may use one that is known already. -/
theorem invariant_of {J : S → Prop} (I : S → Prop) (hJ : ∀ s, Run step ok s₀ s → J s)
    (hstart : I s₀)
    (hstep : ∀ s s' a, J s → I s → ok s a → step s a = some s' → I s') (h : Run step ok s₀ s) :
    I s := by
  induction h with
  | start => exact hstart
  | step hr hok hs ih => exact hstep _ _ _ (hJ _ hr) ih hok hs

theorem mono (hok : ∀ s a, ok s a → ok' s a) (h : Run step ok s₀ s) : Run step ok' s₀ s := by
  induction h with
  | start => exact .start
  | step _ h₁ h₂ ih => exact .step ih (hok _ _ h₁) h₂

theorem append (h₁ : Run step ok s₀ s₁) (h₂ : Run step ok s₁ s) : Run step ok s₀ s := by
  induction h₂ with
  | start => exact h₁
  | step _ hok hs ih => exact .step ih hok hs

end Run

/-- Follow the choices `as` for at most `n` steps, taking `tau` wherever a step
    accepts it; `none` when a step does not satisfy `ok` or its choice does not
    fit.  It stops where the choices are used up. -/
def drive (step : S → A → Option S) (tau : A) (ok : S → A → Bool) :
    Nat → S → List A → Option S
  | 0, s, _ => some s
  | n + 1, s, as =>
      match step s tau with
      | some s' => if ok s tau then drive step tau ok n s' as else none
      | none =>
          match as with
          | [] => some s
          | a :: as =>
              match step s a with
              | some s' => if ok s a then drive step tau ok n s' as else none
              | none => none

theorem run_of_drive {step : S → A → Option S} {tau : A} {ok : S → A → Bool} {n : Nat}
    {s₀ s s' : S} {as : List A} (hr : Run step (fun s a => ok s a) s₀ s)
    (h : drive step tau ok n s as = some s') : Run step (fun s a => ok s a) s₀ s' := by
  induction n generalizing s as with
  | zero =>
      simp only [drive, Option.some.injEq] at h
      exact h ▸ hr
  | succ n ih =>
      unfold drive at h
      split at h
      · rename_i s₁ hs
        split at h
        · rename_i hok
          exact ih (.step hr hok hs) h
        · exact absurd h (by simp)
      · split at h
        · rw [Option.some.injEq] at h
          exact h ▸ hr
        · split at h
          · rename_i s₁ hs
            split at h
            · rename_i hok
              exact ih (.step hr hok hs) h
            · exact absurd h (by simp)
          · exact absurd h (by simp)

/-- A check that succeeds where `drive` ends holds in a state that is reached. -/
theorem exists_run_of_drive {step : S → A → Option S} {tau : A} {ok : S → A → Bool} {n : Nat}
    {s₀ : S} {as : List A} {p : S → Bool} (h : (drive step tau ok n s₀ as).any p = true) :
    ∃ s, Run step (fun s a => ok s a) s₀ s ∧ p s = true := by
  obtain ⟨s, hs, hp⟩ := (Option.any_eq_true _ _).mp h
  exact ⟨s, run_of_drive .start hs, hp⟩

/-- Take the steps with the choices `as`, each of which has to satisfy `ok`. -/
def follow (step : S → A → Option S) (ok : S → A → Bool) (s : S) (as : List A) : Option S :=
  as.foldlM (fun s a => if ok s a then step s a else none) s

theorem run_of_follow {step : S → A → Option S} {ok : S → A → Bool} {s₀ s s' : S} {as : List A}
    (hr : Run step (fun s a => ok s a) s₀ s) (h : follow step ok s as = some s') :
    Run step (fun s a => ok s a) s₀ s' := by
  induction as generalizing s with
  | nil =>
      obtain rfl : s = s' := by simpa [follow] using h
      exact hr
  | cons a as ih =>
      rw [follow, List.foldlM_cons] at h
      obtain ⟨s₁, hs, h⟩ := Option.bind_eq_some_iff.mp h
      rw [Option.ite_none_right_eq_some] at hs
      exact ih (.step hr hs.1 hs.2) h

theorem follow_cons {step : S → A → Option S} {ok : S → A → Bool} {s s' : S} {a : A}
    {as : List A} (h : follow step ok s (a :: as) = some s') :
    ok s a = true ∧ ∃ s₁, step s a = some s₁ ∧ follow step ok s₁ as = some s' := by
  rw [follow, List.foldlM_cons] at h
  obtain ⟨s₁, hs, h⟩ := Option.bind_eq_some_iff.mp h
  rw [Option.ite_none_right_eq_some] at hs
  exact ⟨hs.1, s₁, hs.2, h⟩

/-- A check that succeeds where `follow` ends holds in a state that is reached. -/
theorem exists_run_of_follow {step : S → A → Option S} {ok : S → A → Bool} {s₀ : S}
    {p : S → Bool} (as : List A) (h : (follow step ok s₀ as).any p = true) :
    ∃ s, Run step (fun s a => ok s a) s₀ s ∧ p s = true := by
  obtain ⟨s, hs, hp⟩ := (Option.any_eq_true _ _).mp h
  exact ⟨s, run_of_follow .start hs, hp⟩

end Lib
end HttpProxy
