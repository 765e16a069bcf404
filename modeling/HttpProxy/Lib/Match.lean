/-
  HttpProxy.Lib.Match

  How a pattern of HttpProxy.Lib.Regex matches a subject whose shape is known, part
  by part: a fixed string is consumed, a group of a repetition takes the one length
  behind which the rest of the pattern matches, and among matches that end at the
  same place the first one wins.
-/

import HttpProxy.Lib.Regex
import Mathlib.Data.List.Nodup
import Mathlib.Data.List.Range
import Mathlib.Data.List.TakeWhile
import Mathlib.Tactic.Common

namespace HttpProxy
namespace Lib
namespace Regex

variable {α : Type} {p : α → Bool} {ms : List (Matcher α)} {u r ds xs : List α}
  {b x : α} {pos min i k₀ : Nat} {c : Caps}

-- ============================================================================
-- Fixed parts
-- ============================================================================

theorem cat_cons (m : Matcher α) (ms : List (Matcher α)) (s : MState α) :
    cat (m :: ms) s = (m s).flatMap (cat ms) := rfl

/-- A pattern of one part. -/
theorem cat_single (m : Matcher α) (s : MState α) : cat [m] s = m s :=
  List.flatMap_singleton' (m s)

theorem cat_lit [DecidableEq α] :
    cat (lit xs :: ms) ⟨xs ++ r, pos, c⟩ = cat ms ⟨r, pos + xs.length, c⟩ := by
  rw [cat_cons]
  have hlit : lit xs ⟨xs ++ r, pos, c⟩ = [⟨r, pos + xs.length, c⟩] := by
    induction xs generalizing pos with
    | nil => simp [lit]
    | cons x xs ih =>
        rw [lit, List.cons_append]
        simp only [one, decide_true, if_true, List.flatMap_cons, List.flatMap_nil, List.append_nil,
          ih, List.length_cons]
        rw [Nat.add_assoc, Nat.add_comm 1]
  rw [hlit, List.flatMap_cons, List.flatMap_nil, List.append_nil]

theorem cat_lit_nil [DecidableEq α] : cat (lit (x :: xs) :: ms) ⟨[], pos, c⟩ = [] := rfl

theorem cat_lit_ne [DecidableEq α] (h : b ≠ x) :
    cat (lit (x :: xs) :: ms) ⟨b :: r, pos, c⟩ = [] := by
  rw [cat_cons, lit]
  simp [one, h]

/-- Where a fixed string is found, the subject starts with it. -/
theorem prefix_of_cat_lit [DecidableEq α] (h : cat (lit xs :: ms) ⟨u, pos, c⟩ ≠ []) : xs <+: u := by
  induction xs generalizing u pos with
  | nil => exact List.nil_prefix
  | cons x xs ih =>
      cases u with
      | nil => exact absurd cat_lit_nil h
      | cons b r =>
          by_cases hb : b = x
          · subst hb
            have htail : cat (lit xs :: ms) ⟨r, pos + 1, c⟩ ≠ [] := fun hnil => h (by
              rw [cat_cons] at hnil ⊢
              simpa [lit, one] using hnil)
            exact (List.prefix_cons_inj b).mpr (ih htail)
          · exact absurd (cat_lit_ne hb) h

/-- An optional part is present or absent. -/
theorem cat_opt (m : Matcher α) (s : MState α) :
    cat (opt m :: ms) s = (m s).flatMap (cat ms) ++ cat ms s := by
  rw [cat_cons, opt, List.flatMap_append, List.flatMap_cons, List.flatMap_nil, List.append_nil]

/-- A group of several parts. -/
theorem group_cat (i : Nat) (ps : List (Matcher α)) (s : MState α) :
    group i (cat ps) s = (cat ps s).map fun s' =>
      { s' with caps := (i, s.pos, s'.pos) :: s'.caps } :=
  rfl

theorem cat_bol : cat (bol :: ms) ⟨u, 0, c⟩ = cat ms ⟨u, 0, c⟩ := by
  simp [cat_cons, bol]

theorem cat_eol : cat [eol] ⟨([] : List α), pos, c⟩ = [⟨[], pos, c⟩] := rfl

theorem cat_eol_cons : cat (eol :: ms) ⟨b :: r, pos, c⟩ = [] := rfl

-- ============================================================================
-- Repetitions
-- ============================================================================

theorem flatMap_unique {β γ : Type} {f : β → List γ} {k : β} :
    ∀ {l : List β}, l.Nodup → k ∈ l → (∀ x ∈ l, x ≠ k → f x = []) → l.flatMap f = f k
  | [], _, hk, _ => absurd hk (List.not_mem_nil)
  | x :: l, hnodup, hk, h => by
      rw [List.nodup_cons] at hnodup
      rw [List.flatMap_cons]
      by_cases hx : x = k
      · subst hx
        have hrest : l.flatMap f = [] := by
          rw [List.flatMap_eq_nil_iff]
          intro y hy
          exact h y (List.mem_cons_of_mem x hy) fun hyx => hnodup.1 (hyx ▸ hy)
        rw [hrest, List.append_nil]
      · rw [h x List.mem_cons_self hx, List.nil_append]
        exact flatMap_unique hnodup.2 ((List.mem_cons.mp hk).resolve_left (Ne.symm hx))
          fun y hy => h y (List.mem_cons_of_mem x hy)

/-- The lengths a repetition tries. -/
def lengths (min n : Nat) : List Nat := (List.range (n + 1)).reverse.filter (min ≤ ·)

theorem mem_lengths {n k : Nat} : k ∈ lengths min n ↔ min ≤ k ∧ k ≤ n := by
  simp only [lengths, List.mem_filter, List.mem_reverse, List.mem_range, decide_eq_true_eq]
  omega

theorem lengths_nodup (min n : Nat) : (lengths min n).Nodup :=
  List.Nodup.filter _ (List.nodup_reverse.mpr List.nodup_range)

/-- The longest one is tried first. -/
theorem lengths_cons {n : Nat} (h : min ≤ n) :
    ∃ l, lengths min n = n :: l ∧ ∀ k ∈ l, min ≤ k ∧ k < n := by
  refine ⟨(List.range n).reverse.filter (min ≤ ·), ?_, fun k hk => ?_⟩
  · simp [lengths, List.range_succ, h]
  · simp only [List.mem_filter, List.mem_reverse, List.mem_range, decide_eq_true_eq] at hk
    omega

/-- The state behind `k` characters of a repetition in group `i`. -/
def groupAt (u : List α) (pos i k : Nat) (c : Caps) : MState α :=
  ⟨u.drop k, pos + k, (i, pos, pos + k) :: c⟩

theorem cat_group_rep (i min : Nat) (p : α → Bool) (ms : List (Matcher α)) (u : List α) :
    cat (group i (rep min p) :: ms) ⟨u, pos, c⟩ =
      (lengths min (u.takeWhile p).length).flatMap fun k => cat ms (groupAt u pos i k c) := by
  rw [cat_cons, group, rep, List.map_map, List.flatMap_map]
  rfl

theorem cat_rep (min : Nat) (p : α → Bool) (ms : List (Matcher α)) (u : List α) :
    cat (rep min p :: ms) ⟨u, pos, c⟩ =
      (lengths min (u.takeWhile p).length).flatMap fun k => cat ms ⟨u.drop k, pos + k, c⟩ := by
  rw [cat_cons, rep, List.flatMap_map]
  rfl

theorem rep_eq (min : Nat) (p : α → Bool) (u : List α) :
    rep min p ⟨u, pos, c⟩ =
      (lengths min (u.takeWhile p).length).map fun k => ⟨u.drop k, pos + k, c⟩ := rfl

/-- A group takes the one length behind which the rest of the pattern matches. -/
theorem cat_group_at (hmin : min ≤ k₀) (hk₀ : k₀ ≤ (u.takeWhile p).length)
    (h : ∀ k, min ≤ k → k ≤ (u.takeWhile p).length → k ≠ k₀ →
      cat ms (groupAt u pos i k c) = []) :
    cat (group i (rep min p) :: ms) ⟨u, pos, c⟩ = cat ms (groupAt u pos i k₀ c) := by
  rw [cat_group_rep]
  refine flatMap_unique (lengths_nodup _ _) (mem_lengths.mpr ⟨hmin, hk₀⟩) fun k hk hne => ?_
  obtain ⟨hle, hlt⟩ := mem_lengths.mp hk
  exact h k hle hlt hne

theorem takeWhile_run (hds : ∀ b ∈ ds, p b = true) (hr : ∀ b ∈ r.head?, p b = false) :
    (ds ++ r).takeWhile p = ds := by
  have hstop : r.takeWhile p = [] := by
    cases r with
    | nil => rfl
    | cons b r => simp [hr b rfl]
  rw [List.takeWhile_append_of_pos hds, hstop, List.append_nil]

/-- A group takes a whole run of its characters when the rest of the pattern cannot
    start inside the run. -/
theorem cat_group_run (hmin : min ≤ ds.length) (hds : ∀ b ∈ ds, p b = true)
    (hr : ∀ b ∈ r.head?, p b = false)
    (h : ∀ (b : α) (v : List α) (pos' : Nat) (c' : Caps), p b = true →
      cat ms ⟨b :: v, pos', c'⟩ = []) :
    cat (group i (rep min p) :: ms) ⟨ds ++ r, pos, c⟩ =
      cat ms ⟨r, pos + ds.length, (i, pos, pos + ds.length) :: c⟩ := by
  have hrun := takeWhile_run hds hr
  rw [cat_group_at hmin (by rw [hrun]), groupAt, List.drop_left]
  intro k _ hk hne
  rw [hrun] at hk
  have hlt : k < ds.length := by omega
  rw [groupAt, List.drop_append_of_le_length hk, List.drop_eq_getElem_cons hlt, List.cons_append]
  exact h _ _ _ _ (hds _ (List.getElem_mem hlt))

/-- The last group of an anchored pattern takes all that is left. -/
theorem cat_group_eol (hmin : min ≤ ds.length) (hds : ∀ b ∈ ds, p b = true) :
    cat [group i (rep min p), eol] ⟨ds, pos, c⟩ =
      [⟨[], pos + ds.length, (i, pos, pos + ds.length) :: c⟩] := by
  have hrun : cat [group i (rep min p), eol] ⟨ds ++ [], pos, c⟩ =
      cat [eol] ⟨[], pos + ds.length, (i, pos, pos + ds.length) :: c⟩ :=
    cat_group_run hmin hds (by simp) fun _ _ _ _ _ => cat_eol_cons
  rw [List.append_nil] at hrun
  rw [hrun, cat_eol]

-- ============================================================================
-- The longest match
-- ============================================================================

theorem longest_mem {ss : List (MState α)} {t : MState α} (h : longest ss = some t) : t ∈ ss := by
  induction ss with
  | nil => exact absurd h (by simp [longest])
  | cons s ss ih =>
      rw [longest] at h
      cases hl : longest ss with
      | none =>
          rw [hl] at h
          exact (Option.some.inj h) ▸ List.mem_cons_self
      | some t' =>
          simp only [hl] at h
          split at h
          · exact List.mem_cons_of_mem s (ih (hl.trans h))
          · exact (Option.some.inj h) ▸ List.mem_cons_self

/-- The first match wins when no other one is longer. -/
theorem longest_cons {s : MState α} {ss : List (MState α)} (h : ∀ t ∈ ss, t.pos ≤ s.pos) :
    longest (s :: ss) = some s := by
  rw [longest]
  cases hl : longest ss with
  | none => rfl
  | some t =>
      have hle := h t (longest_mem hl)
      simp only [if_neg (Nat.not_lt.mpr hle)]

/-- A repetition takes all it can when the match ends at the same place anyway. -/
theorem longest_rep (ms : List (Matcher α)) (pos : Nat) (c : Caps) (t : Nat → MState α)
    (hds : ∀ b ∈ ds, p b = true) (hr : ∀ b ∈ r.head?, p b = false)
    (h : ∀ k ≤ ds.length, cat ms ⟨(ds ++ r).drop k, pos + k, c⟩ = [t k])
    (hpos : ∀ k ≤ ds.length, (t k).pos ≤ (t ds.length).pos) :
    longest (cat (rep 0 p :: ms) ⟨ds ++ r, pos, c⟩) = some (t ds.length) := by
  rw [cat_rep, takeWhile_run hds hr]
  obtain ⟨l, hl, hle⟩ := lengths_cons (Nat.zero_le ds.length)
  rw [hl, List.flatMap_cons, h _ (Nat.le_refl _), List.singleton_append]
  refine longest_cons fun s hs => ?_
  obtain ⟨k, hk, hsk⟩ := List.mem_flatMap.mp hs
  have hlen : k ≤ ds.length := Nat.le_of_lt (hle k hk).2
  rw [h k hlen, List.mem_singleton] at hsk
  exact hsk ▸ hpos k hlen

/-- Where the pattern is anchored, nothing but the start of the subject matters. -/
theorem exec_anchored {ms : List (Matcher α)} (h : cat (bol :: ms) ⟨u, 0, []⟩ = []) :
    exec (cat (bol :: ms)) u = none := by
  have hlater (v : List α) (n : Nat) : execFrom (cat (bol :: ms)) v (n + 1) = none := by
    induction v generalizing n with
    | nil => rfl
    | cons b v ih =>
        rw [execFrom]
        exact ih (n + 1)
  cases u with
  | nil => rw [exec, execFrom, h]; rfl
  | cons b v =>
      rw [exec, execFrom, h]
      exact hlater v 0

/-- A match at the start of the subject is the leftmost one. -/
theorem exec_of_longest {m : Matcher α} {t : MState α} (h : longest (m ⟨u, 0, []⟩) = some t) :
    exec m u = some ((0, 0, t.pos) :: t.caps) := by
  cases u with
  | nil => rw [exec, execFrom, h]; rfl
  | cons b r => rw [exec, execFrom, h]

-- ============================================================================
-- What a match says about the subject
-- ============================================================================

section

variable {m : Matcher α} {s t : MState α} {res : Caps}

theorem mem_cat_lit [DecidableEq α] (h : t ∈ cat (lit xs :: ms) ⟨u, pos, c⟩) :
    ∃ r, u = xs ++ r ∧ t ∈ cat ms ⟨r, pos + xs.length, c⟩ := by
  obtain ⟨r, rfl⟩ := prefix_of_cat_lit (List.ne_nil_of_mem h)
  rw [cat_lit] at h
  exact ⟨r, rfl, h⟩

/-- What a repetition takes is made of its characters. -/
theorem take_lengths {k : Nat} (hk : k ∈ lengths min (u.takeWhile p).length) :
    (u.take k).length = k ∧ min ≤ k ∧ ∀ b ∈ u.take k, p b = true := by
  obtain ⟨hmin, hle⟩ := mem_lengths.mp hk
  have hrun := (List.takeWhile_prefix p (l := u)).length_le
  refine ⟨List.length_take_of_le (by omega), hmin, fun b hb => ?_⟩
  rw [← List.takeWhile_append_dropWhile (p := p) (l := u),
    List.take_append_of_le_length hle] at hb
  exact List.mem_takeWhile_imp (List.mem_of_mem_take hb)

theorem mem_cat_group (h : t ∈ cat (group i (rep min p) :: ms) ⟨u, pos, c⟩) :
    ∃ ds r, u = ds ++ r ∧ min ≤ ds.length ∧ (∀ b ∈ ds, p b = true) ∧
      t ∈ cat ms ⟨r, pos + ds.length, (i, pos, pos + ds.length) :: c⟩ := by
  rw [cat_group_rep] at h
  obtain ⟨k, hk, ht⟩ := List.mem_flatMap.mp h
  obtain ⟨hlen, hmin, hds⟩ := take_lengths hk
  rw [groupAt] at ht
  refine ⟨u.take k, u.drop k, (List.take_append_drop k u).symm, by rw [hlen]; exact hmin, hds, ?_⟩
  rw [hlen]
  exact ht

theorem mem_cat_rep (h : t ∈ cat (rep min p :: ms) ⟨u, pos, c⟩) :
    ∃ ds r, u = ds ++ r ∧ min ≤ ds.length ∧ (∀ b ∈ ds, p b = true) ∧
      t ∈ cat ms ⟨r, pos + ds.length, c⟩ := by
  rw [cat_rep] at h
  obtain ⟨k, hk, ht⟩ := List.mem_flatMap.mp h
  obtain ⟨hlen, hmin, hds⟩ := take_lengths hk
  refine ⟨u.take k, u.drop k, (List.take_append_drop k u).symm, by rw [hlen]; exact hmin, hds, ?_⟩
  rw [hlen]
  exact ht

theorem mem_cat_opt (h : t ∈ cat (opt m :: ms) s) :
    (∃ s' ∈ m s, t ∈ cat ms s') ∨ t ∈ cat ms s := by
  rw [cat_opt, List.mem_append, List.mem_flatMap] at h
  exact h

theorem mem_cat_eol (h : t ∈ cat [eol] ⟨u, pos, c⟩) : u = [] ∧ t = ⟨[], pos, c⟩ := by
  cases u with
  | nil =>
      rw [cat_eol, List.mem_singleton] at h
      exact ⟨rfl, h⟩
  | cons b r =>
      rw [cat_eol_cons] at h
      exact absurd h List.not_mem_nil

/-- A search that finds something has a match at its start. -/
theorem mem_of_exec_anchored (h : exec (cat (bol :: ms)) u = some res) :
    ∃ t, t ∈ cat ms ⟨u, 0, []⟩ := by
  cases hnil : cat (bol :: ms) ⟨u, 0, []⟩ with
  | nil =>
      rw [exec_anchored hnil] at h
      exact absurd h (by simp)
  | cons t ts =>
      rw [cat_bol] at hnil
      exact ⟨t, hnil ▸ List.mem_cons_self⟩

theorem mem_of_execFrom {m : Matcher α} {n : Nat} (h : execFrom m u n = some res) :
    ∃ pre r t, u = pre ++ r ∧ t ∈ m ⟨r, n + pre.length, []⟩ ∧
      res = (0, n + pre.length, t.pos) :: t.caps := by
  induction u generalizing n with
  | nil =>
      rw [execFrom] at h
      obtain ⟨t, ht, rfl⟩ := Option.map_eq_some_iff.mp h
      exact ⟨[], [], t, rfl, longest_mem ht, rfl⟩
  | cons b r ih =>
      rw [execFrom] at h
      cases hl : longest (m ⟨b :: r, n, []⟩) with
      | some t =>
          rw [hl] at h
          exact ⟨[], b :: r, t, rfl, longest_mem hl, (Option.some.inj h).symm⟩
      | none =>
          rw [hl] at h
          obtain ⟨pre, r', t, rfl, ht, hres⟩ := ih h
          have hlen : n + (b :: pre).length = n + 1 + pre.length := by
            rw [List.length_cons]
            omega
          refine ⟨b :: pre, r', t, rfl, ?_, ?_⟩
          · rw [hlen]
            exact ht
          · rw [hlen]
            exact hres

/-- A search that finds something has found a match at some place. -/
theorem mem_of_exec {m : Matcher α} (h : exec m u = some res) :
    ∃ pre r t, u = pre ++ r ∧ t ∈ m ⟨r, pre.length, []⟩ ∧
      res = (0, pre.length, t.pos) :: t.caps := by
  obtain ⟨pre, r, t, hu, ht, hres⟩ := mem_of_execFrom h
  rw [Nat.zero_add] at ht hres
  exact ⟨pre, r, t, hu, ht, hres⟩

end

end Regex
end Lib
end HttpProxy
