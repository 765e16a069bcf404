/-
  HttpProxy.Lib.Regex

  A small regular-expression matcher for patterns without alternation: single
  characters, greedy repetitions of a character class, groups, optional parts
  and anchors.  A matcher lists every way it can match from a position, the
  longest choice of each part first, so the first result of greatest length is
  the POSIX leftmost-longest match with the subexpression rule (each part, from
  left to right, as long as the whole match allows).
-/

import Mathlib.Data.List.Basic

namespace HttpProxy
namespace Lib
namespace Regex

variable {α : Type}

/-- Bounds of the groups matched so far: group number, start, end. -/
abbrev Caps := List (Nat × Nat × Nat)

/-- A position in the subject with the groups closed before it. -/
structure MState (α : Type) where
  rest : List α
  pos : Nat
  caps : Caps

/-- All ways to match from a state, in order of preference. -/
abbrev Matcher (α : Type) : Type := MState α → List (MState α)

/-- One character of a class. -/
def one (p : α → Bool) : Matcher α := fun s =>
  match s.rest with
  | [] => []
  | b :: r => if p b then [{ s with rest := r, pos := s.pos + 1 }] else []

/-- At least `min` characters of a class, as many as possible first. -/
def rep (min : Nat) (p : α → Bool) : Matcher α := fun s =>
  let n := (s.rest.takeWhile p).length
  ((List.range (n + 1)).reverse.filter (min ≤ ·)).map fun k =>
    { s with rest := s.rest.drop k, pos := s.pos + k }

/-- A fixed string. -/
def lit [DecidableEq α] : List α → Matcher α
  | [] => fun s => [s]
  | c :: cs => fun s => (one (· = c) s).flatMap (lit cs)

def seq (m₁ m₂ : Matcher α) : Matcher α := fun s => (m₁ s).flatMap m₂

/-- `(…)?`, present before absent. -/
def opt (m : Matcher α) : Matcher α := fun s => m s ++ [s]

/-- A numbered group. -/
def group (i : Nat) (m : Matcher α) : Matcher α := fun s =>
  (m s).map fun s' => { s' with caps := (i, s.pos, s'.pos) :: s'.caps }

/-- `^` -/
def bol : Matcher α := fun s => if s.pos = 0 then [s] else []

/-- `$` -/
def eol : Matcher α := fun s => if s.rest.isEmpty then [s] else []

/-- The concatenation of a list of parts. -/
def cat : List (Matcher α) → Matcher α
  | [] => fun s => [s]
  | m :: ms => seq m (cat ms)

/-- The first result that no other one exceeds in length. -/
def longest : List (MState α) → Option (MState α)
  | [] => none
  | s :: ss =>
      match longest ss with
      | none => some s
      | some t => if s.pos < t.pos then some t else some s

/-- Search for the leftmost start; group 0 is the whole match. -/
def execFrom (m : Matcher α) : List α → Nat → Option Caps
  | [], i => (longest (m ⟨[], i, []⟩)).map fun t => (0, i, t.pos) :: t.caps
  | b :: r, i =>
      match longest (m ⟨b :: r, i, []⟩) with
      | some t => some ((0, i, t.pos) :: t.caps)
      | none => execFrom m r (i + 1)

def exec (m : Matcher α) (s : List α) : Option Caps := execFrom m s 0

/-- Start of group `i`, if it took part in the match. -/
def Caps.so (c : Caps) (i : Nat) : Option Nat :=
  (c.find? (·.1 = i)).map (·.2.1)

/-- End of group `i`, if it took part in the match. -/
def Caps.eo (c : Caps) (i : Nat) : Option Nat :=
  (c.find? (·.1 = i)).map (·.2.2)

end Regex
end Lib
end HttpProxy
