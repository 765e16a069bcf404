/-
  HttpProxy.Parse.Strings

  The C strings of a buffer that is cut up in place.  `StrAt off s` says that the
  string at `off` is `s` and where its NUL is; each write of the parsers either
  leaves such a string alone, or cuts it, or puts a new one behind all of them.
-/

import HttpProxy.Stream.Buffer

namespace HttpProxy

-- ============================================================================
-- Strings
-- ============================================================================

/-- The bytes of `s` and a NUL stand at `off`. -/
structure Strbuf.StrAt (b : Strbuf) (off : Nat) (s : Bytes) : Prop where
  nul : 0 ∉ s
  byte : ∀ k ≤ s.length, b.p[off + k]? = (s ++ [0])[k]?

/-- The content ends within the allocated bytes. -/
def Strbuf.Sound (b : Strbuf) : Prop := ∃ s, b.Raw s

section

variable {b b' : Strbuf} {s t r : Bytes} {off n i : Nat} {d : UInt8}

namespace Strbuf

theorem Holds.sound (h : b.Holds s) : b.Sound := ⟨s, h.raw⟩

theorem Sound.set (h : b.Sound) (i : Nat) (d : UInt8) : (b.set i d).Sound := by
  obtain ⟨s, hraw⟩ := h
  obtain ⟨rest, hp, hne⟩ := hraw.p
  have hlen := congrArg List.length hp
  rw [List.length_append] at hlen
  refine ⟨(b.p.set i d).take s.length, ?_, ?_, (b.p.set i d).drop s.length, ?_, ?_⟩
  · show b.len = _
    rw [hraw.len, List.length_take, List.length_set]
    omega
  · show b.cap = (b.p.set i d).length
    rw [hraw.cap, List.length_set]
  · exact (List.take_append_drop _ _).symm
  · have hpos := List.length_pos_iff.mpr hne
    apply List.length_pos_iff.mp
    rw [List.length_drop, List.length_set]
    omega

theorem Sound.cat (h : b.Sound) (t : Bytes) : (strbufCat b t).Sound := by
  obtain ⟨s, hraw⟩ := h
  exact ⟨s ++ t, strbufCat_raw hraw⟩

/-- Appending changes no byte of the content. -/
theorem Sound.cat_byte (h : b.Sound) (hi : i < b.len) : (strbufCat b t).p[i]? = b.p[i]? := by
  obtain ⟨s, hraw⟩ := h
  obtain ⟨rest, hp, -⟩ := hraw.p
  obtain ⟨rest', hp', -⟩ := (strbufCat_raw (t := t) hraw).p
  rw [hraw.len] at hi
  have hlt : i < (s ++ t).length := by
    rw [List.length_append]
    omega
  rw [hp, hp', List.getElem?_append_left hlt, List.getElem?_append_left hi,
    List.getElem?_append_left hi]

namespace StrAt

theorem p (h : b.StrAt off s) : ∃ rest, b.p.drop off = s ++ ([0] ++ rest) := by
  have hprefix : s ++ [0] <+: b.p.drop off := by
    rw [List.prefix_iff_getElem?]
    intro k hk
    rw [List.length_append, List.length_singleton] at hk
    rw [List.getElem?_drop, h.byte k (by omega)]
    exact List.getElem?_eq_getElem _
  obtain ⟨rest, hrest⟩ := hprefix
  exact ⟨rest, by rw [← hrest, List.append_assoc]⟩

theorem str (h : b.StrAt off s) : b.str off = s := by
  obtain ⟨rest, hrest⟩ := h.p
  rw [Strbuf.str, cstrAt, hrest, List.takeWhile_append_of_pos]
  · simp
  · intro c hc
    rw [decide_eq_true_eq]
    rintro rfl
    exact h.nul hc

/-- The string is made of its own bytes. -/
theorem congr (h : b.StrAt off s)
    (hb : ∀ i, off ≤ i → i ≤ off + s.length → b'.p[i]? = b.p[i]?) : b'.StrAt off s where
  nul := h.nul
  byte := fun k hk => (hb _ (by omega) (by omega)).trans (h.byte k hk)

/-- A write outside the string. -/
theorem set (h : b.StrAt off s) (hi : i < off ∨ off + s.length < i) : (b.set i d).StrAt off s :=
  h.congr fun _ hlo hhi => List.getElem?_set_ne (by omega)

/-- A NUL within the string, or over its own. -/
theorem cut (h : b.StrAt off s) (hn : n ≤ s.length) : (b.set (off + n) 0).StrAt off (s.take n) where
  nul := fun hmem => h.nul (List.mem_of_mem_take hmem)
  byte := by
    intro k hk
    rw [List.length_take, Nat.min_eq_left hn] at hk
    have hlen : (s.take n).length = n := List.length_take_of_le hn
    show (b.p.set (off + n) 0)[off + k]? = _
    by_cases heq : k = n
    · subst heq
      have hin : off + k < b.p.length := by
        have hbyte := h.byte k hn
        have hk' : k < (s ++ [0]).length := by
          rw [List.length_append, List.length_singleton]
          exact Nat.lt_succ_of_le hn
        rw [List.getElem?_eq_getElem hk'] at hbyte
        exact (List.getElem?_eq_some_iff.mp hbyte).1
      rw [List.getElem?_set_self hin, List.getElem?_append_right (Nat.le_of_eq hlen), hlen,
        Nat.sub_self]
      rfl
    · rw [List.getElem?_set_ne (by omega), h.byte k (by omega),
        List.getElem?_append_left (by omega), List.getElem?_append_left (by omega),
        List.getElem?_take_of_lt (by omega)]

/-- The end of a string. -/
theorem drop (h : b.StrAt off s) (hn : n ≤ s.length) : b.StrAt (off + n) (s.drop n) where
  nul := fun hmem => h.nul (List.mem_of_mem_drop hmem)
  byte := by
    intro k hk
    rw [List.length_drop] at hk
    rw [Nat.add_assoc, h.byte _ (by omega), ← List.drop_append_of_le_length hn, List.getElem?_drop]

/-- The end of a string whose beginning is known. -/
theorem right (h : b.StrAt off (s ++ t)) : b.StrAt (off + s.length) t := by
  have hdrop := h.drop (n := s.length) (by rw [List.length_append]; omega)
  rwa [List.drop_left] at hdrop

/-- Cutting a string behind its beginning. -/
theorem left (h : b.StrAt off (s ++ t)) : (b.set (off + s.length) 0).StrAt off s := by
  have hcut := h.cut (n := s.length) (by rw [List.length_append]; omega)
  rwa [List.take_left] at hcut

/-- A string that ends within the content is not touched by appending. -/
theorem cat (h : b.StrAt off s) (hb : b.Sound) (hlt : off + s.length < b.len) :
    (strbufCat b t).StrAt off s :=
  h.congr fun _ _ hhi => hb.cat_byte (by omega)

end StrAt

/-- The NUL of a string ended by one. -/
theorem Sound.cat_nul_strAt (h : b.Sound) (ht : 0 ∉ t) :
    (strbufCat b (t ++ [0])).StrAt b.len t := by
  obtain ⟨s, hraw⟩ := h
  obtain ⟨rest, hp, -⟩ := (strbufCat_raw (t := t ++ [0]) hraw).p
  refine ⟨ht, fun k hk => ?_⟩
  rw [hp, List.append_assoc, hraw.len, List.getElem?_append_right (Nat.le_add_right _ _),
    Nat.add_sub_cancel_left, List.getElem?_append_left (by simp; omega)]

/-- The string of the bytes appended last. -/
theorem Sound.cat_strAt (h : b.Sound) (hne : t ≠ []) (ht : 0 ∉ t) :
    (strbufCat b t).StrAt b.len t := by
  obtain ⟨s, hraw⟩ := h
  obtain ⟨rest, hp⟩ := (strbufCat_holds_of_raw hraw hne).p
  refine ⟨ht, fun k hk => ?_⟩
  have happ : (strbufCat b t).p = s ++ ((t ++ [0]) ++ rest) := by
    rw [hp]
    simp
  rw [happ, hraw.len, List.getElem?_append_right (Nat.le_add_right _ _), Nat.add_sub_cancel_left,
    List.getElem?_append_left (by simp; omega)]

end Strbuf

end

end HttpProxy
