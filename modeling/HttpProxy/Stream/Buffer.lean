/-
  HttpProxy.Stream.Buffer

  What a `struct strbuf` holds.  `Holds s` is the state every append leaves: the
  bytes `s`, then a NUL.  `strbuf_reset` leaves a buffer that is only `Raw`: its
  first byte is still the old one.
-/

import HttpProxy.Core.Strbuf
import Mathlib.Tactic.Common

namespace HttpProxy

/-- The content of the buffer is `s`, and there is room for its NUL. -/
structure Strbuf.Raw (b : Strbuf) (s : Bytes) : Prop where
  len : b.len = s.length
  cap : b.cap = b.p.length
  p : ∃ rest, b.p = s ++ rest ∧ rest ≠ []

/-- The content of the buffer is `s`, ended by a NUL. -/
structure Strbuf.Holds (b : Strbuf) (s : Bytes) : Prop where
  len : b.len = s.length
  cap : b.cap = b.p.length
  p : ∃ rest, b.p = s ++ 0 :: rest

section

variable {b : Strbuf} {s t : Bytes} {c : UInt8}

theorem Strbuf.Holds.raw (h : b.Holds s) : b.Raw s where
  len := h.len
  cap := h.cap
  p := by
    obtain ⟨rest, hp⟩ := h.p
    exact ⟨0 :: rest, hp, by simp⟩

theorem strbufInit_holds : strbufInit.Holds [] where
  len := rfl
  cap := rfl
  p := ⟨List.replicate 127 0, rfl⟩

theorem Strbuf.Raw.reset (h : b.Raw s) : (strbufReset b).Raw [] where
  len := rfl
  cap := h.cap
  p := by
    obtain ⟨rest, hp, hne⟩ := h.p
    exact ⟨b.p, rfl, by simp [hp, hne]⟩

/-- How many bytes fit a buffer that was reset. -/
theorem strbufReset_room (b : Strbuf) {lenLimit : Nat} (h : 0 < lenLimit) :
    (strbufReset b).len + 1 + (lenLimit - 1) = lenLimit := by
  show 0 + 1 + (lenLimit - 1) = lenLimit
  omega

/-- `strbuf_append` always leaves room for the byte and the NUL. -/
theorem strbufGrow_p (h : b.Raw s) :
    (strbufGrow b).len = s.length ∧ (strbufGrow b).cap = (strbufGrow b).p.length ∧
      ∃ x y rest, (strbufGrow b).p = s ++ x :: y :: rest := by
  obtain ⟨rest, hp, hne⟩ := h.p
  have hlen := congrArg List.length hp
  rw [List.length_append] at hlen
  unfold strbufGrow
  split
  · rename_i hfull
    rw [h.len, h.cap] at hfull
    obtain ⟨x, rfl⟩ : ∃ x, rest = [x] := List.length_eq_one_iff.mp (by omega)
    obtain ⟨n, hn⟩ : ∃ n, b.cap = n + 1 := ⟨s.length, by rw [h.cap, hfull]⟩
    refine ⟨h.len, ?_, x, 0, List.replicate n 0, ?_⟩
    · simp only [List.length_append, List.length_replicate, ← h.cap]
      omega
    · simp [hp, hn, List.replicate_succ]
  · rename_i hroom
    rw [h.len, h.cap] at hroom
    cases rest with
    | nil => exact absurd rfl hne
    | cons x rest =>
        cases rest with
        | nil => exact absurd (by simp [hlen]) hroom
        | cons y rest => exact ⟨h.len, h.cap, x, y, rest, hp⟩

theorem strbufAppend_holds (h : b.Raw s) : (strbufAppend b c).Holds (s ++ [c]) := by
  obtain ⟨hlen, hcap, x, y, rest, hp⟩ := strbufGrow_p h
  refine ⟨?_, ?_, rest, ?_⟩
  · simp [strbufAppend, hlen]
  · simp [strbufAppend, hcap]
  · simp [strbufAppend, hlen, hp, List.set_append_right]

@[simp] theorem strbufAppend_len : (strbufAppend b c).len = b.len + 1 := by
  have hgrow : (strbufGrow b).len = b.len := by
    unfold strbufGrow
    split <;> rfl
  simp [strbufAppend, hgrow]

@[simp] theorem strbufCat_nil : strbufCat b [] = b := rfl

@[simp] theorem strbufCat_cons : strbufCat b (c :: s) = strbufCat (strbufAppend b c) s := rfl

@[simp] theorem strbufCat_len : (strbufCat b s).len = b.len + s.length := by
  induction s generalizing b with
  | nil => rfl
  | cons c s ih =>
      rw [strbufCat_cons, ih, strbufAppend_len, List.length_cons]
      omega

theorem strbufCat_append : strbufCat b (s ++ t) = strbufCat (strbufCat b s) t := by
  simp [strbufCat]

theorem strbufCat_raw (h : b.Raw s) : (strbufCat b t).Raw (s ++ t) := by
  induction t generalizing b s with
  | nil => simpa using h
  | cons c t ih =>
      have hcat := ih (strbufAppend_holds (c := c) h).raw
      simpa using hcat

theorem strbufCat_holds (h : b.Holds s) : (strbufCat b t).Holds (s ++ t) := by
  induction t generalizing b s with
  | nil => simpa using h
  | cons c t ih =>
      have hcat := ih (strbufAppend_holds (c := c) h.raw)
      simpa using hcat

/-- Appending a non-empty string to a buffer that was reset. -/
theorem strbufCat_holds_of_raw (h : b.Raw s) (ht : t ≠ []) : (strbufCat b t).Holds (s ++ t) := by
  obtain ⟨c, t, rfl⟩ := List.exists_cons_of_ne_nil ht
  have hcat := strbufCat_holds (t := t) (strbufAppend_holds (c := c) h)
  simpa using hcat

theorem Strbuf.Raw.content (h : b.Raw s) : b.content = s := by
  obtain ⟨rest, hp, _⟩ := h.p
  simp [Strbuf.content, hp, h.len]

theorem cstrAt_append {off : Nat} {r : Bytes} (hoff : off = s.length) (ht : 0 ∉ t) :
    cstrAt (s ++ (t ++ 0 :: r)) off = t := by
  have hall : ∀ c ∈ t, decide (c ≠ 0) = true := by
    intro c hc
    rw [decide_eq_true_eq]
    rintro rfl
    exact ht hc
  rw [cstrAt, hoff, List.drop_left, List.takeWhile_append_of_pos hall]
  simp

/-- The string at an offset ends at the next NUL. -/
theorem Strbuf.Holds.str_at {off : Nat} {r : Bytes} (h : b.Holds (s ++ (t ++ 0 :: r)))
    (hoff : off = s.length) (ht : 0 ∉ t) : b.str off = t := by
  obtain ⟨rest, hp⟩ := h.p
  have happ : b.p = s ++ (t ++ 0 :: (r ++ 0 :: rest)) := by
    rw [hp]
    simp
  rw [Strbuf.str, happ, cstrAt_append hoff ht]

theorem Strbuf.Holds.str_last {off : Nat} (h : b.Holds (s ++ t)) (hoff : off = s.length)
    (ht : 0 ∉ t) : b.str off = t := by
  obtain ⟨rest, hp⟩ := h.p
  rw [Strbuf.str, hp, List.append_assoc, cstrAt_append hoff ht]

/-- Overwriting one byte of the content. -/
theorem Strbuf.Holds.set {i : Nat} {d : UInt8} (h : b.Holds (s ++ c :: t)) (hi : i = s.length) :
    (b.set i d).Holds (s ++ d :: t) where
  len := by
    show b.len = _
    rw [h.len]
    simp
  cap := by
    show b.cap = (b.p.set i d).length
    rw [h.cap, List.length_set]
  p := by
    obtain ⟨rest, hp⟩ := h.p
    refine ⟨rest, ?_⟩
    show b.p.set i d = _
    rw [hp, hi]
    simp [List.set_append_right]

/-- The string at the start of a buffer ends at the first NUL of its content. -/
theorem Strbuf.Holds.str_takeWhile (h : b.Holds s) : b.str 0 = s.takeWhile (· ≠ 0) := by
  obtain ⟨rest, hp⟩ := h.p
  rw [Strbuf.str, cstrAt, List.drop_zero, hp]
  clear h hp
  induction s with
  | nil => simp
  | cons c s ih =>
      by_cases hc : c = 0
      · simp [hc]
      · rw [List.cons_append, List.takeWhile_cons_of_pos (by simpa using hc),
          List.takeWhile_cons_of_pos (by simpa using hc), ih]

end

end HttpProxy
