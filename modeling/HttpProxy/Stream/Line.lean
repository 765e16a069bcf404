/-
  HttpProxy.Stream.Line

  conn_gets returns exactly one line, unless the byte 0xFF gets in its way:
  `char` is signed, so conn_getc returns it as -1, and conn_gets takes it for a
  failed read (`connGets_exact_iff`).
-/

import HttpProxy.Stream.Reader

namespace HttpProxy

open Lib

-- ============================================================================
-- Lines
-- ============================================================================

/-- A byte that does not end a line. -/
def notEol (b : UInt8) : Bool := b ≠ 10 && b ≠ 13

/-- A line holds neither CR nor LF. -/
def NoEol (line : Bytes) : Prop := ∀ b ∈ line, notEol b = true

instance (line : Bytes) : Decidable (NoEol line) :=
  List.decidableBAll (notEol · = true) line

/-- `t` ends a line that `rest` follows: LF, CR LF, or a CR before another byte. -/
inductive Terminator : Bytes → Bytes → Prop where
  | lf (rest : Bytes) : Terminator [10] rest
  | crlf (rest : Bytes) : Terminator [13, 10] rest
  | cr (b : UInt8) (rest : Bytes) : b ≠ 10 → Terminator [13] (b :: rest)

/-- No 0xFF is among the first `n` bytes of the line, nor behind the lone CR that
    ends it. -/
def Clean (n : Nat) (u : Bytes) : Prop :=
  255 ∉ (u.takeWhile notEol).take n ∧
    ((u.takeWhile notEol).length < n → ¬ [13, 255] <+: u.dropWhile notEol)

section

variable {n : Nat} {u line t rest : Bytes} {c : UInt8}

theorem notEol_iff : notEol c = true ↔ c ≠ 10 ∧ c ≠ 13 := by
  simp [notEol]

theorem scanLine_lf : scanLine (n + 1) (10 :: u) = (.eol, [], u) := by
  simp [scanLine]

theorem scanLine_crlf : scanLine (n + 1) (13 :: 10 :: u) = (.eol, [], u) := by
  simp [scanLine]

theorem scanLine_cr_bad : scanLine (n + 1) (13 :: 255 :: u) = (.bad, [], u) := by
  simp [scanLine]

theorem scanLine_cr (h₁ : c ≠ 10) (h₂ : c ≠ 255) :
    scanLine (n + 1) (13 :: c :: u) = (.eol, [], c :: u) := by
  simp [scanLine, h₁, h₂]

theorem scanLine_char (h₁ : notEol c = true) (h₂ : c ≠ 255) :
    scanLine (n + 1) (c :: u) =
      ((scanLine n u).1, c :: (scanLine n u).2.1, (scanLine n u).2.2) := by
  rw [notEol_iff] at h₁
  simp [scanLine, h₁, h₂]

/-- The line reader over a line without 0xFF. -/
theorem scanLine_append (hline : NoEol line) (hff : 255 ∉ line) :
    scanLine (line.length + n) (line ++ u) =
      ((scanLine n u).1, line ++ (scanLine n u).2.1, (scanLine n u).2.2) := by
  induction line with
  | nil => simp
  | cons c line ih =>
      rw [NoEol, List.forall_mem_cons] at hline
      rw [List.mem_cons, not_or] at hff
      rw [List.cons_append, List.length_cons, Nat.add_right_comm,
        scanLine_char hline.1 (Ne.symm hff.1), ih hline.2 hff.2]
      rfl

/-- The line reader over a whole line. -/
theorem scanLine_line (hline : NoEol line) (hff : 255 ∉ line) (ht : Terminator t rest)
    (hcr : t = [13] → rest.head? ≠ some 255) (hlen : line.length < n) :
    scanLine n (line ++ t ++ rest) = (.eol, line, rest) := by
  obtain ⟨m, rfl⟩ : ∃ m, n = line.length + (m + 1) := ⟨n - line.length - 1, by omega⟩
  rw [List.append_assoc, scanLine_append hline hff]
  cases ht with
  | lf => rw [List.singleton_append, scanLine_lf, List.append_nil]
  | crlf => rw [List.cons_append, List.singleton_append, scanLine_crlf, List.append_nil]
  | cr b rest hb =>
      have hb' : b ≠ 255 := by simpa using hcr rfl
      rw [List.singleton_append, scanLine_cr hb hb', List.append_nil]

/-- The line reader reads no more than fits. -/
theorem scanLine_length :
    (scanLine n u).2.1.length ≤ n ∧
      ((scanLine n u).1 = .limit → (scanLine n u).2.1.length = n) ∧
      ((scanLine n u).1 = .bad → (scanLine n u).2.1.length < n) ∧
      ((scanLine n u).1 = .eol → (scanLine n u).2.1.length < n) := by
  fun_induction scanLine n u with
  | case1 u => simp
  | case2 n => simp
  | case3 n u => simp
  | case4 n u => simp
  | case5 n => simp
  | case6 n d v => simp
  | case7 n d v => simp
  | case8 n d v => simp
  | case9 n c u hff hlf hcr x ih =>
      simp only [List.length_cons, x]
      obtain ⟨hle, hlimit, hbad, heol⟩ := ih
      refine ⟨by omega, fun h => ?_, fun h => ?_, fun h => ?_⟩
      · have hlen := hlimit h
        omega
      · have hlen := hbad h
        omega
      · have hlen := heol h
        omega

theorem clean_cons (h₁ : notEol c = true) (h₂ : c ≠ 255) : Clean (n + 1) (c :: u) ↔ Clean n u := by
  simp [Clean, h₁, Ne.symm h₂]

/-- The line reader meets a byte it takes for a failed read exactly when the line is
    not clean. -/
theorem scanLine_bad_iff : (scanLine n u).1 = .bad ↔ ¬ Clean n u := by
  fun_induction scanLine n u with
  | case1 u => simp [Clean]
  | case2 n => simp [Clean]
  | case3 n u => simp [Clean, notEol]
  | case4 n u => simp [Clean, notEol]
  | case5 n => simp [Clean, notEol]
  | case6 n d v => simp [Clean, notEol]
  | case7 n d v => simp [Clean, notEol]
  | case8 n d v h₁ h₂ => simp [Clean, notEol, Ne.symm h₁]
  | case9 n c u hff hlf hcr x ih => rw [clean_cons (notEol_iff.mpr ⟨hlf, hcr⟩) hff, ih]

end

instance (n : Nat) (u : Bytes) : Decidable (Clean n u) := by
  unfold Clean
  infer_instance

/-- What the line reader accepts is a line with its end. -/
theorem scanLine_eol {n : Nat} {u : Bytes} (h : (scanLine n u).1 = .eol) :
    ∃ t, NoEol (scanLine n u).2.1 ∧ 255 ∉ (scanLine n u).2.1 ∧
      Terminator t (scanLine n u).2.2 ∧
      u = (scanLine n u).2.1 ++ t ++ (scanLine n u).2.2 := by
  fun_induction scanLine n u with
  | case4 n u hff => exact ⟨_, by simp [NoEol], by simp, .lf u, rfl⟩
  | case7 n v => exact ⟨_, by simp [NoEol], by simp, .crlf v, rfl⟩
  | case8 n d v hff hlf => exact ⟨_, by simp [NoEol], by simp, .cr d v hlf, rfl⟩
  | case9 n c u hff hlf hcr x ih =>
      obtain ⟨t, hline, hline', ht, hu⟩ := ih h
      refine ⟨t, ?_, ?_, ht, congrArg (c :: ·) hu⟩
      · exact List.forall_mem_cons.mpr ⟨notEol_iff.mpr ⟨hlf, hcr⟩, hline⟩
      · simpa [Ne.symm hff] using hline'
  | _ => simp_all

/-- A stream starts with one line at most. -/
theorem line_unique {line t rest line' t' rest' : Bytes} (hline : NoEol line)
    (hline' : NoEol line') (ht : Terminator t rest) (ht' : Terminator t' rest')
    (h : line ++ t ++ rest = line' ++ t' ++ rest') : line = line' := by
  have htake {l t r : Bytes} (hl : NoEol l) (ht : Terminator t r) :
      (l ++ t ++ r).takeWhile notEol = l := by
    rw [List.append_assoc, List.takeWhile_append_of_pos hl]
    cases ht <;> simp [notEol]
  have hsame := congrArg (List.takeWhile notEol) h
  rwa [htake hline ht, htake hline' ht'] at hsame

/-- Only a line that fits and holds no 0xFF is accepted. -/
theorem scanLine_eol_line {n : Nat} {line t rest : Bytes} (hline : NoEol line)
    (ht : Terminator t rest) (h : (scanLine n (line ++ t ++ rest)).1 = .eol) :
    (scanLine n (line ++ t ++ rest)).2.1 = line ∧ 255 ∉ line ∧ line.length < n := by
  obtain ⟨t', hnoeol, hff, ht', hu⟩ := scanLine_eol h
  have hlen := scanLine_length.2.2.2 h
  have hsame := line_unique hline hnoeol ht ht' hu
  rw [← hsame] at hff hlen
  exact ⟨hsame.symm, hff, hlen⟩

/-- What is left behind a line is shorter. -/
theorem scanLine_shorter {n : Nat} {u line rest : Bytes} (h : scanLine n u = (.eol, line, rest)) :
    rest.length < u.length := by
  obtain ⟨t, _, _, ht, hu⟩ := scanLine_eol (show (scanLine n u).1 = .eol by rw [h])
  rw [h] at ht hu
  rw [hu, List.length_append, List.length_append]
  cases ht <;> simp only [List.length_cons, List.length_nil] <;> omega

/-- A line that ends with CR LF is accepted when it fits and holds no 0xFF. -/
theorem scanLine_eol_iff {n : Nat} {line rest : Bytes} (hline : NoEol line) :
    (scanLine n (line ++ [13, 10] ++ rest)).1 = .eol ↔ 255 ∉ line ∧ line.length < n := by
  refine ⟨fun h => (scanLine_eol_line hline (.crlf rest) h).2, fun h => ?_⟩
  rw [scanLine_line hline h.1 (.crlf rest) (by simp) h.2]

theorem scanLine_eof {n : Nat} {u : Bytes} (h : (scanLine n u).1 = .eof) :
    (scanLine n u).2.2 = [] := by
  fun_induction scanLine n u with
  | case9 n c u hff hlf hcr x ih => exact ih h
  | _ => simp_all

/-- On a line followed by its end, the line is what is clean or not. -/
theorem clean_line {n : Nat} {line t rest : Bytes} (hline : NoEol line) (ht : Terminator t rest)
    (hlen : line.length < n) :
    Clean n (line ++ t ++ rest) ↔ 255 ∉ line ∧ (t = [13] → rest.head? ≠ some 255) := by
  have htake : (line ++ t ++ rest).takeWhile notEol = line := by
    rw [List.append_assoc, List.takeWhile_append_of_pos hline]
    cases ht <;> simp [notEol]
  have hdrop : (line ++ t ++ rest).dropWhile notEol = t ++ rest := by
    rw [List.append_assoc, List.dropWhile_append_of_pos hline]
    cases ht <;> simp [notEol]
  rw [Clean, htake, hdrop, List.take_of_length_le (Nat.le_of_lt hlen)]
  cases ht <;> simp [hlen, eq_comm]

-- ============================================================================
-- conn_gets returns exactly one line
-- ============================================================================

/-- `conn_gets(conn, lenLimit, buf)` returns; it returns -1 only when the stream has
    ended or the limit is reached; and where the stream starts with a line that fits,
    it appends the line, returns its length and consumes the line and its end. -/
def GetsExact (r : Role) (w : Wire) (lenLimit : Nat) (buf : Strbuf) : Prop :=
  ∃ ret buf' w', Evals (connGets r lenLimit buf) w (ret, buf') w' ∧
    (ret = -1 → (¬ w'.Live r ∧ w'.unread r = []) ∨ buf'.len + 1 = lenLimit) ∧
    ∀ line t rest, NoEol line → Terminator t rest → w.unread r = line ++ t ++ rest →
      buf.len + line.length + 1 < lenLimit →
      ret = line.length ∧ buf'.content = buf.content ++ line ∧
        Relay r w w' (line ++ t) [] ∧ w'.unread r = rest

section

variable {r : Role} {w : Wire} {lenLimit : Nat} {buf : Strbuf} {s : Bytes}

theorem getsExact_of_clean (hok : w.Ok) (hlive : w.Live r) (hbuf : buf.Raw s)
    (hlimit : buf.len + 1 < lenLimit) (h : Clean (lenLimit - (buf.len + 1)) (w.unread r)) :
    GetsExact r w lenLimit buf := by
  have hlen : buf.len + 1 + (lenLimit - (buf.len + 1)) = lenLimit := by omega
  obtain ⟨got, w', he, hread⟩ := connGets_eval hok (.inl hlive) (.inl hlen)
  refine ⟨_, _, w', he, fun hret => ?_, fun line t rest hline ht hu hfit => ?_⟩
  · cases hend : (scanLine (lenLimit - (buf.len + 1)) (w.unread r)).1 with
    | eol =>
        rw [lineRet, if_pos hend] at hret
        omega
    | limit =>
        have hfull := scanLine_length.2.1 hend
        rw [strbufCat_len, hfull]
        exact .inr (by omega)
    | eof => exact .inl ⟨hread.eof hend, hread.unread.trans (scanLine_eof hend)⟩
    | bad => exact absurd h (scanLine_bad_iff.mp hend)
  · have hfit' : line.length < lenLimit - (buf.len + 1) := by omega
    rw [hu, clean_line hline ht hfit'] at h
    have hscan := scanLine_line hline h.1 ht h.2 hfit'
    rw [← hu] at hscan
    have hunread : w'.unread r = rest := by rw [hread.unread, hscan]
    have hrelay := hread.relay (by simp [hscan])
    have hgot : got = line ++ t := by
      have happ := hrelay.unread
      rw [hu, hunread] at happ
      exact (List.append_cancel_right happ).symm
    refine ⟨by rw [lineRet, hscan, if_pos rfl], ?_, hgot ▸ hrelay, hunread⟩
    rw [hscan, (strbufCat_raw hbuf).content, hbuf.content]

theorem not_getsExact (hok : w.Ok) (hlive : w.Live r) (hlimit : buf.len + 1 < lenLimit)
    (h : ¬ Clean (lenLimit - (buf.len + 1)) (w.unread r)) : ¬ GetsExact r w lenLimit buf := by
  have hlen : buf.len + 1 + (lenLimit - (buf.len + 1)) = lenLimit := by omega
  have hbad := scanLine_bad_iff.mpr h
  obtain ⟨got, w', he, hread⟩ := connGets_eval hok (.inl hlive) (.inl hlen)
  rintro ⟨ret, buf', w₁, he₁, hret, -⟩
  obtain ⟨hval, rfl⟩ := he.det he₁
  rw [Prod.mk.injEq] at hval
  obtain ⟨rfl, rfl⟩ := hval
  -- -1 is returned on an open connection, before the limit
  rcases hret (by rw [lineRet, hbad]; rfl) with ⟨hdead, -⟩ | hfull
  · have hstat := (hread.relay (by rw [hbad]; decide)).statSrc
    exact hdead (by rw [Wire.Live, hstat]; exact hlive)
  · have hlt := scanLine_length.2.2.1 hbad
    rw [strbufCat_len] at hfull
    omega

/-- conn_gets returns exactly one line when 0xFF is neither in the line nor behind the
    lone CR that ends it, and only then. -/
theorem connGets_exact_iff (hok : w.Ok) (hlive : w.Live r) (hbuf : buf.Raw s)
    (hlimit : buf.len + 1 < lenLimit) :
    GetsExact r w lenLimit buf ↔ Clean (lenLimit - (buf.len + 1)) (w.unread r) := by
  refine ⟨fun h => ?_, getsExact_of_clean hok hlive hbuf hlimit⟩
  by_contra hclean
  exact not_getsExact hok hlive hlimit hclean h

/-- The line "ab", split by EAGAIN, whose lone CR precedes "c". -/
theorem connGets_exact_ab :
    GetsExact .client (.fresh ([.data 97 [], .block, .data 98 [13], .data 99 []], []) ([], []))
      HTTP_HEADER_MAXLEN strbufInit :=
  (connGets_exact_iff (Wire.fresh_ok _ _) (Wire.fresh_live _ _ _) strbufInit_holds.raw
    (by decide)).mpr (by decide)

/-- "a", 0xFF, CR, LF: conn_gets returns -1 after the byte 0xFF. -/
theorem connGets_ff :
    ¬ GetsExact .client (.fresh ([.data 97 [255, 13, 10]], []) ([], []))
      HTTP_HEADER_MAXLEN strbufInit :=
  not_getsExact (Wire.fresh_ok _ _) (Wire.fresh_live _ _ _) (by decide) (by decide)

end

end HttpProxy
