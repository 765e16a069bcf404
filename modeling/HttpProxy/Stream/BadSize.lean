/-
  HttpProxy.Stream.BadSize

  Size lines that announce no size.  The proxy forwards a size line before it looks
  at the size, and works with whatever sscanf made of it: no number is -1, a large
  one wraps.  `sizeRejected_iff` says when such a line is rejected all the same: when
  it cannot be read or forwarded, and, for a line sscanf reads as 0, when nothing of
  the trailer passes.
-/

import HttpProxy.Stream.BodyRun

namespace HttpProxy

open Lib

/-- A hexadecimal number of at most 2^31 - 3, and an optional extension. -/
def WellFormedSize (line : Bytes) : Prop :=
  ∃ ds ext, line = ds ++ ext ∧ HexDigits ds ∧ (∀ b ∈ ext.head?, b = 59) ∧
    digitsVal 16 ds ≤ 2 ^ 31 - 3

/-- The calls of `conn_copy` in the chunk loop, begun with `buf` in `w`: `k` others are made
    before the one with `len`. -/
inductive Copies (dst src : Role) : Strbuf → Wire → Nat → Int → Prop where
  | now {buf buf₁ : Strbuf} {w w₁ w₂ : Wire} {ret len : Int} :
      Evals (connGets src HTTP_CHUNK_HEADER_MAXLEN (strbufReset buf)) w (ret, buf₁) w₁ →
      0 < ret → Evals (connWrite dst (strbufCat buf₁ CRLF).content) w₁ 0 w₂ →
      (sscanfX ((strbufCat buf₁ CRLF).str 0)).getD (-1) = len → len ≠ 0 →
      Copies dst src buf w 0 (toInt32 (len + 2))
  | later {buf buf₁ : Strbuf} {w w₁ : Wire} {k : Nat} {len : Int} :
      Evals (chunkBody dst src buf) w (.inl buf₁) w₁ → Copies dst src buf₁ w₁ k len →
      Copies dst src buf w (k + 1) len

/-- The `k`-th call is for the `k`-th chunk, with its declared size plus 2. -/
def Declared (pre : List DataChunk) (k : Nat) (len : Int) : Prop :=
  ∃ c, pre[k]? = some c ∧ len = (c.data.length : Int) + 2

/-- `conn_gets` does not accept the size line `line`, with `t` as its end and `rest` behind it: it
    is empty, holds the byte 0xFF, or is too long, or the byte 0xFF follows a lone CR. -/
def SizeRefused (line t rest : Bytes) : Prop :=
  line = [] ∨ 255 ∈ line ∨ 255 ≤ line.length ∨ t = [13] ∧ rest.head? = some 255

/-- Behind the chunks `pre`, a malformed size line is rejected: the transfer returns a value
    other than 0, no byte that follows the line is written, and `conn_copy` is not called for
    the line. -/
def SizeRejected (src : Role) (data : NetData) (pre : List DataChunk) (line : Bytes) (w : Wire) :
    Prop :=
  ¬ WellFormedSize line →
    (∃ ret w', Evals (netTransferBody src.other src data) w ret w' ∧ ret ≠ 0 ∧
      ∃ put, put <+: pre.flatMap DataChunk.bytes ++ (line ++ CRLF) ∧
        (w'.sock src.other).sent = (w.sock src.other).sent ++ put) ∧
    ∀ k len, Copies src.other src strbufInit w k len → Declared pre k len

-- ============================================================================
-- The calls of a round
-- ============================================================================

section

variable {w w₁ : Wire} {src : Role} {buf buf₁ : Strbuf} {s line rest : Bytes} {k : Nat} {len : Int}

/-- A round that goes on is followed by the calls of the next one. -/
theorem Copies.of_next (he : Evals (chunkBody src.other src buf) w (.inl buf₁) w₁)
    (h : Copies src.other src buf w (k + 1) len) : Copies src.other src buf₁ w₁ k len := by
  cases h with
  | later hround h =>
      obtain ⟨heq, rfl⟩ := hround.det he
      obtain rfl := Sum.inl.inj heq
      exact h

/-- A round that ends the loop is followed by none. -/
theorem Copies.of_last {x : Int × Strbuf} (he : Evals (chunkBody src.other src buf) w (.inr x) w₁)
    (h : Copies src.other src buf w k len) : k = 0 := by
  cases h with
  | now => rfl
  | later hround _ => exact absurd (hround.det he).1 (by simp)

/-- A line that is not accepted is followed by no call. -/
theorem not_copies_stop (hok : w.Ok) (hlive : w.Live src)
    (hstop : (scanLine (HTTP_CHUNK_HEADER_MAXLEN - 1) (w.unread src)).1 = .eol →
      (scanLine (HTTP_CHUNK_HEADER_MAXLEN - 1) (w.unread src)).2.1 = []) :
    ¬ Copies src.other src buf w k len := by
  intro h
  obtain ⟨got, w₂, buf₂, he, _⟩ := chunkBody_stop buf hok hlive hstop
  obtain rfl := h.of_last he
  cases h with
  | now hgets hpos _ _ _ =>
      obtain ⟨_, w₃, he₃, _⟩ :=
        connGets_reset HTTP_CHUNK_HEADER_MAXLEN (by decide) buf hok hlive
      have hret := (Prod.mk.inj (hgets.det he₃).1).1
      rw [lineRet] at hret
      split at hret
      · rename_i heol
        rw [hstop heol] at hret
        rw [hret] at hpos
        exact absurd hpos (by decide)
      · omega

/-- An accepted line is followed by a call if it can be forwarded and is not read as 0. -/
theorem copies_line_iff (hok : w.Ok) (hlive : w.Live src) (hbuf : buf.Raw s)
    (hscan : scanLine (HTTP_CHUNK_HEADER_MAXLEN - 1) (w.unread src) = (.eol, line, rest))
    (hne : line ≠ []) : Copies src.other src buf w 0 len ↔
      w.Takes src.other (line ++ CRLF).length ∧ announced line ≠ 0 ∧
        len = toInt32 (announced line + 2) := by
  obtain ⟨t, w₂, _, he₂, h₂, _⟩ : ∃ t w₂, Terminator t rest ∧
      Evals (connGets src HTTP_CHUNK_HEADER_MAXLEN (strbufReset buf)) w
        (line.length, strbufCat (strbufReset buf) line) w₂ ∧
      Relay src w w₂ (line ++ t) [] ∧ w₂.unread src = rest :=
    connGets_line HTTP_CHUNK_HEADER_MAXLEN (by decide) hok hlive hscan
  have hbuf₂ := lineOut_holds hbuf line
  have hcontent := hbuf₂.raw.content
  have hok₂ := evals_ok he₂ hok
  have hread : (sscanfX ((strbufCat (strbufCat (strbufReset buf) line) CRLF).str 0)).getD (-1) =
      announced line := by
    rw [hbuf₂.str_takeWhile]
    rfl
  constructor
  · intro h
    cases h with
    | now hgets hpos hwrite hlen hzero =>
        obtain ⟨heq, rfl⟩ := hgets.det he₂
        obtain ⟨rfl, rfl⟩ := Prod.mk.inj heq
        rw [hread] at hlen
        subst hlen
        refine ⟨?_, hzero, rfl⟩
        by_contra htakes
        rw [← h₂.takes_nil] at htakes
        obtain ⟨m, hroom, hm⟩ := Wire.not_takes htakes
        obtain ⟨w₃, he₃, _⟩ := connWrite_breaks hok₂ hroom hm
        rw [hcontent] at hwrite
        exact absurd (hwrite.det he₃).1 (by decide)
  · rintro ⟨htakes, hzero, rfl⟩
    rw [← h₂.takes_nil] at htakes
    obtain ⟨w₃, he₃, _⟩ := connWrite_takes hok₂ (htakes.live (by simp [CRLF])) htakes
    rw [← hcontent] at he₃
    exact .now he₂ (by have := List.length_pos_iff.mpr hne; omega) he₃ hread hzero

/-- A destination that is closed takes no line, so no call is made and the loop ends with -1. -/
theorem chunks_closed (hok : w.Ok) (hlive : w.Live src) (hbuf : buf.Raw s)
    (hclosed : (w.sock src.other).stat = .closed) :
    (∃ buf' w', Evals (netTransferChunks src.other src buf) w (-1, buf') w' ∧
      (w'.sock src.other).sent = (w.sock src.other).sent) ∧
      ∀ k len, ¬ Copies src.other src buf w k len := by
  generalize hx : scanLine (HTTP_CHUNK_HEADER_MAXLEN - 1) (w.unread src) = x
  by_cases hstop : x.1 = .eol → x.2.1 = []
  · rw [← hx] at hstop
    obtain ⟨got, w₁, buf₁, he, hread⟩ := chunkBody_stop buf hok hlive hstop
    refine ⟨⟨buf₁, w₁, Eval.loop_inr he, by rw [hread.moved.sent, List.append_nil]⟩, ?_⟩
    exact fun k len => not_copies_stop hok hlive hstop
  · rw [Classical.not_imp] at hstop
    obtain ⟨e, line, rest⟩ := x
    obtain ⟨rfl, hne⟩ := hstop
    have hroom : w.room src.other = some 0 := by simp [Wire.room, hclosed]
    have hpos : 0 < (line ++ CRLF).length := by simp [CRLF]
    obtain ⟨got, w₁, buf₁, he, hb⟩ := chunkBody_lost hok hlive hbuf hx hne hroom hpos
    refine ⟨⟨buf₁, w₁, Eval.loop_inr he, by rw [hb.sent, List.take_zero, List.append_nil]⟩, ?_⟩
    intro k len h
    obtain rfl := h.of_last he
    have htakes := ((copies_line_iff hok hlive hbuf hx hne).mp h).1 0 hroom
    omega

/-- The call for a well-formed chunk is made with the declared size plus 2. -/
theorem DataChunk.copies_zero (c : DataChunk) (hok : w.Ok) (hlive : w.Live src)
    (hbuf : buf.Raw s) (hu : w.unread src = c.bytes ++ rest)
    (h : Copies src.other src buf w 0 len) : len = (c.data.length : Int) + 2 := by
  rw [c.bytes_append] at hu
  have hscan := c.size.scan (c.data ++ CRLF ++ rest)
  rw [← hu] at hscan
  obtain ⟨-, -, rfl⟩ := (copies_line_iff hok hlive hbuf hscan c.size.line_ne_nil).mp h
  have hbound := c.bound
  rw [c.size.announced_eq (by omega), c.copyLen, List.length_append]
  rfl

end

-- ============================================================================
-- The chunks in front
-- ============================================================================

section

variable {w : Wire} {src : Role} {buf : Strbuf} {s rest : Bytes} {pre : List DataChunk}

theorem Declared.cons {c : DataChunk} {k : Nat} {len : Int} (h : Declared pre k len) :
    Declared (c :: pre) (k + 1) len := h

/-- The loop comes through well-formed chunks for which there is room. -/
structure Through (src : Role) (pre : List DataChunk) (buf : Strbuf) (w : Wire) (buf₁ : Strbuf)
    (w₁ : Wire) : Prop where
  ok : w₁.Ok
  relay : Relay src w w₁ (pre.flatMap DataChunk.bytes) (pre.flatMap DataChunk.bytes)
  takes : w.Takes src.other (pre.flatMap DataChunk.bytes).length
  raw : ∃ s, buf₁.Raw s
  evals : ∀ y w', Evals (netTransferChunks src.other src buf) w y w' ↔
    Evals (netTransferChunks src.other src buf₁) w₁ y w'
  copies : ∀ k len, Copies src.other src buf₁ w₁ k len →
    Copies src.other src buf w (pre.length + k) len
  declared : ∀ k len, Copies src.other src buf w k len →
    Declared pre k len ∨ ∃ i, Copies src.other src buf₁ w₁ i len

/-- The destination does not take the chunks: the loop ends with -1. -/
structure Lost (src : Role) (pre : List DataChunk) (buf : Strbuf) (w : Wire) : Prop where
  takes : ¬ w.Takes src.other (pre.flatMap DataChunk.bytes).length
  evals : ∃ buf' w' put, Evals (netTransferChunks src.other src buf) w (-1, buf') w' ∧
    put <+: pre.flatMap DataChunk.bytes ∧
    (w'.sock src.other).sent = (w.sock src.other).sent ++ put
  declared : ∀ k len, Copies src.other src buf w k len → Declared pre k len

/-- One more chunk in front. -/
theorem Through.cons {c : DataChunk} {buf₁ buf₂ : Strbuf} {w₁ w₂ : Wire}
    (he : Evals (chunkBody src.other src buf) w (.inl buf₁) w₁)
    (hr : Relay src w w₁ c.bytes c.bytes) (htakes : w.Takes src.other c.bytes.length)
    (hzero : ∀ len, Copies src.other src buf w 0 len → len = (c.data.length : Int) + 2)
    (h : Through src pre buf₁ w₁ buf₂ w₂) : Through src (c :: pre) buf w buf₂ w₂ where
  ok := h.ok
  relay := hr.trans h.relay
  takes := hr.takes_append.mpr ⟨htakes, h.takes⟩
  raw := h.raw
  evals y w' := (Eval.loop_iff he).trans (h.evals y w')
  copies k len h' := by
    rw [List.length_cons, Nat.add_right_comm]
    exact .later he (h.copies k len h')
  declared k len h' := by
    cases k with
    | zero => exact .inl ⟨c, rfl, hzero len h'⟩
    | succ k => exact (h.declared k len (h'.of_next he)).imp_left Declared.cons

theorem Lost.cons {c : DataChunk} {buf₁ : Strbuf} {w₁ : Wire}
    (he : Evals (chunkBody src.other src buf) w (.inl buf₁) w₁)
    (hr : Relay src w w₁ c.bytes c.bytes)
    (hzero : ∀ len, Copies src.other src buf w 0 len → len = (c.data.length : Int) + 2)
    (h : Lost src pre buf₁ w₁) : Lost src (c :: pre) buf w where
  takes ht := h.takes (hr.takes_append.mp ht).2
  evals := by
    obtain ⟨buf', w', put, he', hput, hsent⟩ := h.evals
    refine ⟨buf', w', c.bytes ++ put, Eval.loop_inl he he',
      (List.prefix_append_right_inj _).mpr hput, ?_⟩
    rw [hsent, hr.sent, List.append_assoc]
  declared k len h' := by
    cases k with
    | zero => exact ⟨c, rfl, hzero len h'⟩
    | succ k => exact (h.declared k len (h'.of_next he)).cons

/-- The loop comes through the chunks, or the destination does not take them. -/
theorem chunks_cases (pre : List DataChunk) (hok : w.Ok) (hlive : w.Live src) (hbuf : buf.Raw s)
    (hu : w.unread src = pre.flatMap DataChunk.bytes ++ rest) :
    (∃ buf₁ w₁, Through src pre buf w buf₁ w₁) ∨ Lost src pre buf w := by
  induction pre generalizing w buf s with
  | nil =>
      exact .inl ⟨buf, w, hok, .refl src w, Wire.takes_zero, ⟨s, hbuf⟩, fun _ _ => Iff.rfl,
        fun k len h => by rw [List.length_nil, Nat.zero_add]; exact h, fun k len h => .inr ⟨k, h⟩⟩
  | cons c pre ih =>
      rw [List.flatMap_cons, List.append_assoc] at hu
      have hzero (len : Int) (h : Copies src.other src buf w 0 len) :
          len = (c.data.length : Int) + 2 := c.copies_zero hok hlive hbuf hu h
      have hfits (ht : w.Takes src.other ((c :: pre).flatMap DataChunk.bytes).length) :
          w.Takes src.other c.bytes.length :=
        ht.mono (by rw [List.flatMap_cons, List.length_append]; exact Nat.le_add_right _ _)
      rcases chunk_cases c hok hlive hbuf hu with ⟨w₁, buf₁, s₁, he, hr, htakes, hbuf₁⟩ |
        ⟨k, w₁, buf₁, s₁, he, hb, hlive₁, hbuf₁, htakes⟩ | ⟨k, got, w₁, buf₁, he, hb, htakes⟩
      · have hu₁ : w₁.unread src = pre.flatMap DataChunk.bytes ++ rest := hr.unread_rest hu
        rcases ih (evals_ok he hok) (hr.live hlive) hbuf₁ hu₁ with ⟨buf₂, w₂, h⟩ | h
        · exact .inl ⟨buf₂, w₂, h.cons he hr htakes hzero⟩
        · exact .inr (h.cons he hr hzero)
      · -- the write of the data failed, but conn_copy returned 0
        obtain ⟨⟨buf', w', he', hsent⟩, hnone⟩ :=
          chunks_closed (evals_ok he hok) hlive₁ hbuf₁ hb.closed
        refine .inr ⟨fun ht => htakes (hfits ht), ⟨buf', w', c.bytes.take k, Eval.loop_inl he he',
          (List.take_prefix _ _).trans (List.prefix_append _ _), hsent.trans hb.sent⟩, ?_⟩
        intro i len h
        cases i with
        | zero => exact ⟨c, rfl, hzero len h⟩
        | succ i => exact absurd (h.of_next he) (hnone i len)
      · refine .inr ⟨fun ht => htakes (hfits ht), ⟨buf₁, w₁, c.bytes.take k, Eval.loop_inr he,
          (List.take_prefix _ _).trans (List.prefix_append _ _), hb.sent⟩, ?_⟩
        intro i len h
        obtain rfl := h.of_last he
        exact ⟨c, rfl, hzero len h⟩

end

-- ============================================================================
-- The line itself
-- ============================================================================

section

variable {w w' : Wire} {src : Role} {buf : Strbuf} {s line t rest : Bytes} {ret : Int}

theorem SizeRefused.stop (h : SizeRefused line t rest) (hline : NoEol line)
    (ht : Terminator t rest)
    (heol : (scanLine (HTTP_CHUNK_HEADER_MAXLEN - 1) (line ++ t ++ rest)).1 = .eol) :
    (scanLine (HTTP_CHUNK_HEADER_MAXLEN - 1) (line ++ t ++ rest)).2.1 = [] := by
  obtain ⟨hsame, hff, hlen⟩ := scanLine_eol_line hline ht heol
  rcases h with h | h | h | ⟨rfl, h⟩
  · rw [hsame]
    exact h
  · exact absurd h hff
  · exact absurd (show line.length < 255 from hlen) (by omega)
  · obtain ⟨rest, rfl⟩ : ∃ rest', rest = 255 :: rest' := List.head?_eq_some_iff.mp h
    obtain ⟨m, hm⟩ : ∃ m, HTTP_CHUNK_HEADER_MAXLEN - 1 = line.length + (m + 1) :=
      ⟨HTTP_CHUNK_HEADER_MAXLEN - 1 - line.length - 1, by omega⟩
    rw [hm, List.append_assoc, scanLine_append hline hff, List.singleton_append,
      scanLine_cr_bad] at heol
    exact LineEnd.noConfusion heol

theorem scan_of_not_refused (h : ¬ SizeRefused line t rest) (hline : NoEol line)
    (ht : Terminator t rest) : line ≠ [] ∧
      scanLine (HTTP_CHUNK_HEADER_MAXLEN - 1) (line ++ t ++ rest) = (.eol, line, rest) := by
  rw [SizeRefused, not_or, not_or, not_or, not_and, Nat.not_le] at h
  obtain ⟨hne, hff, hlen, hcr⟩ := h
  exact ⟨hne, scanLine_line hline hff ht hcr hlen⟩

/-- A line that is not accepted ends the transfer. -/
theorem transfer_stop (hok : w.Ok) (hlive : w.Live src) (hline : NoEol line)
    (ht : Terminator t rest) (hu : w.unread src = line ++ t ++ rest)
    (href : SizeRefused line t rest) :
    (∃ w', Evals (chunkedTransfer src.other src buf) w (-1) w' ∧
      (w'.sock src.other).sent = (w.sock src.other).sent) ∧
      ∀ k len, ¬ Copies src.other src buf w k len := by
  have hstop := href.stop hline ht
  rw [← hu] at hstop
  obtain ⟨got, w₁, buf₁, he, hread⟩ := chunkBody_stop buf hok hlive hstop
  refine ⟨⟨w₁, (Eval.loop_inr he).bind (by simp), ?_⟩, fun k len =>
    not_copies_stop hok hlive hstop⟩
  rw [hread.moved.sent, List.append_nil]

/-- A line that cannot be forwarded ends the transfer before sscanf. -/
theorem transfer_lost (hok : w.Ok) (hlive : w.Live src) (hbuf : buf.Raw s)
    (hscan : scanLine (HTTP_CHUNK_HEADER_MAXLEN - 1) (w.unread src) = (.eol, line, rest))
    (hne : line ≠ []) (htakes : ¬ w.Takes src.other (line ++ CRLF).length) :
    (∃ k w', Evals (chunkedTransfer src.other src buf) w (-1) w' ∧
      (w'.sock src.other).sent = (w.sock src.other).sent ++ (line ++ CRLF).take k) ∧
      ∀ k len, ¬ Copies src.other src buf w k len := by
  obtain ⟨m, hroom, hm⟩ := Wire.not_takes htakes
  obtain ⟨got, w₁, buf₁, he, hb⟩ := chunkBody_lost hok hlive hbuf hscan hne hroom hm
  refine ⟨⟨m, w₁, (Eval.loop_inr he).bind (by simp), hb.sent⟩, fun k len h => ?_⟩
  obtain rfl := h.of_last he
  exact htakes ((copies_line_iff hok hlive hbuf hscan hne).mp h).1

/-- A line that is read as 0 is followed by the trailer, and by no call. -/
theorem transfer_zero (hok : w.Ok) (hlive : w.Live src) (hbuf : buf.Raw s)
    (hscan : scanLine (HTTP_CHUNK_HEADER_MAXLEN - 1) (w.unread src) = (.eol, line, rest))
    (hne : line ≠ []) (htakes : w.Takes src.other (line ++ CRLF).length)
    (hzero : announced line = 0) :
    ∃ w₁ buf₁ got, w₁.Ok ∧ Relay src w w₁ got (line ++ CRLF) ∧ w₁.unread src = rest ∧
      buf₁.Raw (line ++ CRLF) ∧
      (∀ ret w', Evals (chunkedTransfer src.other src buf) w ret w' ↔
        Evals (netTransferTrailer src.other src buf₁) w₁ ret w') ∧
      ∀ k len, ¬ Copies src.other src buf w k len := by
  obtain ⟨e, w₁, buf₁, _, hok₁, h₁, hu₁, hbuf₁, hgo⟩ :=
    chunkBody_line hok hlive hbuf hscan hne htakes
  have hround := (hgo _ _).mpr (chunkData_zero hbuf₁ hzero)
  refine ⟨w₁, buf₁, _, hok₁, h₁, hu₁, hbuf₁.raw, fun ret w' => ?_, fun k len h => ?_⟩
  · have hloop : Evals (netTransferChunks src.other src buf) w (0, buf₁) w₁ :=
      Eval.loop_inr hround
    exact hloop.bind_iff
  · obtain rfl := h.of_last hround
    exact ((copies_line_iff hok hlive hbuf hscan hne).mp h).2.1 hzero

/-- A trailer line that can be read is passed on, as far as there is room for it. -/
theorem trailer_passes (hok : w.Ok) (hlive : w.Live src) (hbuf : buf.Raw s)
    (heol : (scanLine (HTTP_HEADER_MAXLEN - 1) (w.unread src)).1 = .eol)
    (htakes : w.Takes src.other 1)
    (he : Evals (netTransferTrailer src.other src buf) w ret w') :
    (w.sock src.other).sent.length < (w'.sock src.other).sent.length := by
  generalize hx : scanLine (HTTP_HEADER_MAXLEN - 1) (w.unread src) = x at heol
  obtain ⟨e, l, rest⟩ := x
  obtain rfl : e = .eol := heol
  -- behind a round that has sent something, no more than that is needed
  have hgrown {w₁ : Wire} {y : Strbuf ⊕ Int} (hy : Evals (trailerBody src.other src buf) w y w₁)
      (hlt : (w.sock src.other).sent.length < (w₁.sock src.other).sent.length) :
      (w.sock src.other).sent.length < (w'.sock src.other).sent.length := by
    rcases Eval.of_loop he with hout | ⟨buf₂, w₂, hround, hnext⟩
    · rw [(hout.det hy).2]
      exact hlt
    · obtain rfl := (hround.det hy).2
      exact Nat.lt_of_lt_of_le hlt (evals_sent src.other hnext).length_le
  by_cases hline : w.Takes src.other (l ++ CRLF).length
  · obtain ⟨e, w₁, buf₁, _, he₁, h₁, _⟩ := trailerBody_line hok hlive hbuf hx hline
    apply hgrown he₁
    rw [h₁.sent]
    simp [CRLF]
  · obtain ⟨m, hroom, hm⟩ := Wire.not_takes hline
    obtain ⟨got, w₁, he₁, hb⟩ := trailerBody_lost hok hlive hbuf hx hroom hm
    apply hgrown he₁
    have hpos := htakes m hroom
    rw [hb.sent, List.length_append, List.length_take]
    omega

/-- Nothing of the trailer passes if its first line cannot be read, or there is no room. -/
theorem trailer_stays (hok : w.Ok) (hlive : w.Live src) (hbuf : buf.Raw s)
    (h : ¬ w.Takes src.other 1 ∨ (scanLine (HTTP_HEADER_MAXLEN - 1) (w.unread src)).1 ≠ .eol) :
    ∃ w', Evals (netTransferTrailer src.other src buf) w (-1) w' ∧
      (w'.sock src.other).sent = (w.sock src.other).sent := by
  by_cases heol : (scanLine (HTTP_HEADER_MAXLEN - 1) (w.unread src)).1 = .eol
  · have htakes := h.resolve_right (not_not.mpr heol)
    obtain ⟨m, hroom, hm⟩ := Wire.not_takes htakes
    generalize hx : scanLine (HTTP_HEADER_MAXLEN - 1) (w.unread src) = x at heol
    obtain ⟨e, l, rest⟩ := x
    obtain rfl : e = .eol := heol
    obtain ⟨got, w₁, he, hb⟩ := trailerBody_lost hok hlive hbuf hx hroom
      (show m < (l ++ CRLF).length by simp [CRLF]; omega)
    refine ⟨w₁, Eval.loop_inr he, ?_⟩
    obtain rfl : m = 0 := by omega
    rw [hb.sent, List.take_zero, List.append_nil]
  · obtain ⟨got, w₁, he, hread⟩ := trailerBody_stop buf hok hlive heol
    exact ⟨w₁, Eval.loop_inr he, by rw [hread.moved.sent, List.append_nil]⟩

end

-- ============================================================================
-- Malformed size lines
-- ============================================================================

/-- The size line `line` behind the chunks `pre` stops the transfer where it is: it is not
    accepted, the destination does not take what comes up to its end, or it is read as 0 and
    nothing of the trailer passes. -/
def StopsAt (src : Role) (pre : List DataChunk) (line t rest : Bytes) (w : Wire) : Prop :=
  let upTo := pre.flatMap DataChunk.bytes ++ (line ++ CRLF)
  SizeRefused line t rest ∨ ¬ w.Takes src.other upTo.length ∨
    announced line = 0 ∧ (¬ w.Takes src.other (upTo.length + 1) ∨
      (scanLine (HTTP_HEADER_MAXLEN - 1) rest).1 ≠ .eol)

section

variable {src : Role} {data : NetData} {pre : List DataChunk} {line t rest : Bytes}
  {w w₁ w' : Wire} {buf buf₁ : Strbuf} {s : Bytes} {ret : Int}

/-- Behind the chunks in front the transfer is that of what follows them. -/
theorem Through.transfer (h : Through src pre buf w buf₁ w₁) :
    Evals (chunkedTransfer src.other src buf) w ret w' ↔
      Evals (chunkedTransfer src.other src buf₁) w₁ ret w' := by
  constructor
  · intro he
    obtain ⟨x, w₂, hloop, hrest⟩ := he.of_bind
    exact ((h.evals x w₂).mp hloop).bind hrest
  · intro he
    obtain ⟨x, w₂, hloop, hrest⟩ := he.of_bind
    exact ((h.evals x w₂).mpr hloop).bind hrest

/-- What follows the chunks in front sends nothing behind the line and makes no call. -/
theorem Through.rejected (h : Through src pre buf w buf₁ w₁)
    (hlast : ∃ put w', Evals (chunkedTransfer src.other src buf₁) w₁ (-1) w' ∧
      put <+: line ++ CRLF ∧ (w'.sock src.other).sent = (w₁.sock src.other).sent ++ put)
    (hnone : ∀ k len, ¬ Copies src.other src buf₁ w₁ k len) :
    (∃ ret w', Evals (chunkedTransfer src.other src buf) w ret w' ∧ ret ≠ 0 ∧
      ∃ put, put <+: pre.flatMap DataChunk.bytes ++ (line ++ CRLF) ∧
        (w'.sock src.other).sent = (w.sock src.other).sent ++ put) ∧
    ∀ k len, Copies src.other src buf w k len → Declared pre k len := by
  obtain ⟨put, w', he, hput, hsent⟩ := hlast
  refine ⟨⟨-1, w', h.transfer.mpr he, by decide, pre.flatMap DataChunk.bytes ++ put,
    (List.prefix_append_right_inj _).mpr hput, ?_⟩, fun k len hk => ?_⟩
  · rw [hsent, h.relay.sent, List.append_assoc]
  · rcases h.declared k len hk with hdecl | ⟨i, hi⟩
    · exact hdecl
    · exact absurd hi (hnone i len)

/-- A line that stops the transfer is rejected. -/
theorem rejected_of_stops (hok : w.Ok) (hlive : w.Live src) (hbuf : buf.Raw s)
    (hline : NoEol line) (ht : Terminator t rest)
    (hu : w.unread src = pre.flatMap DataChunk.bytes ++ (line ++ t ++ rest))
    (hstops : StopsAt src pre line t rest w) :
    (∃ ret w', Evals (chunkedTransfer src.other src buf) w ret w' ∧ ret ≠ 0 ∧
      ∃ put, put <+: pre.flatMap DataChunk.bytes ++ (line ++ CRLF) ∧
        (w'.sock src.other).sent = (w.sock src.other).sent ++ put) ∧
    ∀ k len, Copies src.other src buf w k len → Declared pre k len := by
  rcases chunks_cases pre hok hlive hbuf hu with ⟨buf₁, w₁, h⟩ | h
  · obtain ⟨s₁, hbuf₁⟩ := h.raw
    have hlive₁ : w₁.Live src := h.relay.live hlive
    have hu₁ : w₁.unread src = line ++ t ++ rest := h.relay.unread_rest hu
    by_cases href : SizeRefused line t rest
    · obtain ⟨⟨w', he, hsent⟩, hnone⟩ := transfer_stop h.ok hlive₁ hline ht hu₁ href
      exact h.rejected ⟨[], w', he, List.nil_prefix, by rw [hsent, List.append_nil]⟩ hnone
    obtain ⟨hne, hscan⟩ := scan_of_not_refused href hline ht
    rw [← hu₁] at hscan
    by_cases htakes : w₁.Takes src.other (line ++ CRLF).length
    · have hall := h.relay.takes_append.mpr ⟨h.takes, htakes⟩
      obtain ⟨hzero, hstay⟩ := (hstops.resolve_left href).resolve_left (not_not.mpr hall)
      obtain ⟨w₂, buf₂, got, hok₂, h₂, hu₂, hbuf₂, hgo, hnone⟩ :=
        transfer_zero h.ok hlive₁ hbuf₁ hscan hne htakes hzero
      have hroom : w₂.Takes src.other 1 ↔ w.Takes src.other
          ((pre.flatMap DataChunk.bytes ++ (line ++ CRLF)).length + 1) := by
        have hsucc := (h.relay.trans h₂).takes_succ
        exact ⟨fun hone => hsucc.mpr ⟨hall, hone⟩, fun hone => (hsucc.mp hone).2⟩
      rw [← hroom, ← hu₂] at hstay
      obtain ⟨w', he, hsent⟩ := trailer_stays hok₂ (h₂.live hlive₁) hbuf₂ hstay
      refine h.rejected ⟨line ++ CRLF, w', (hgo _ _).mpr he, List.prefix_refl _, ?_⟩ hnone
      rw [hsent, h₂.sent]
    · obtain ⟨⟨m, w', he, hsent⟩, hnone⟩ := transfer_lost h.ok hlive₁ hbuf₁ hscan hne htakes
      exact h.rejected ⟨_, w', he, List.take_prefix _ _, hsent⟩ hnone
  · obtain ⟨buf', w', put, he, hput, hsent⟩ := h.evals
    exact ⟨⟨-1, w', he.bind (by simp), by decide, put,
      hput.trans (List.prefix_append _ _), hsent⟩, h.declared⟩

/-- Any other line is not: `conn_copy` is called for it, or what follows it is passed on. -/
theorem stops_of_rejected (hok : w.Ok) (hlive : w.Live src) (hbuf : buf.Raw s)
    (hline : NoEol line) (ht : Terminator t rest)
    (hu : w.unread src = pre.flatMap DataChunk.bytes ++ (line ++ t ++ rest))
    (hput : ∃ ret w', Evals (chunkedTransfer src.other src buf) w ret w' ∧ ret ≠ 0 ∧
      ∃ put, put <+: pre.flatMap DataChunk.bytes ++ (line ++ CRLF) ∧
        (w'.sock src.other).sent = (w.sock src.other).sent ++ put)
    (hcopies : ∀ k len, Copies src.other src buf w k len → Declared pre k len) :
    StopsAt src pre line t rest w := by
  by_cases href : SizeRefused line t rest
  · exact .inl href
  by_cases hall : w.Takes src.other (pre.flatMap DataChunk.bytes ++ (line ++ CRLF)).length
  · obtain ⟨hne, hscan⟩ := scan_of_not_refused href hline ht
    obtain ⟨buf₁, w₁, h⟩ : ∃ buf₁ w₁, Through src pre buf w buf₁ w₁ := by
      rcases chunks_cases pre hok hlive hbuf hu with h | h
      · exact h
      · refine absurd (hall.mono ?_) h.takes
        rw [List.length_append]
        exact Nat.le_add_right _ _
    obtain ⟨s₁, hbuf₁⟩ := h.raw
    have hlive₁ : w₁.Live src := h.relay.live hlive
    have hu₁ : w₁.unread src = line ++ t ++ rest := h.relay.unread_rest hu
    rw [← hu₁] at hscan
    have htakes := (h.relay.takes_append.mp hall).2
    have hzero : announced line = 0 := by
      by_contra hzero
      have hcall := (copies_line_iff h.ok hlive₁ hbuf₁ hscan hne).mpr ⟨htakes, hzero, rfl⟩
      obtain ⟨c, hc, _⟩ := hcopies _ _ (h.copies 0 _ hcall)
      rw [Nat.add_zero, List.getElem?_length] at hc
      exact absurd hc (by simp)
    refine .inr (.inr ⟨hzero, ?_⟩)
    by_contra hpass
    rw [not_or, not_not, not_not] at hpass
    obtain ⟨hroom, heol⟩ := hpass
    obtain ⟨w₂, buf₂, got, hok₂, h₂, hu₂, hbuf₂, hgo, _⟩ :=
      transfer_zero h.ok hlive₁ hbuf₁ hscan hne htakes hzero
    have hone := ((h.relay.trans h₂).takes_succ.mp hroom).2
    rw [← hu₂] at heol
    obtain ⟨ret, w', he, _, put, hprefix, hsent⟩ := hput
    have hgrown := trailer_passes hok₂ (h₂.live hlive₁) hbuf₂ heol hone
      ((hgo ret w').mp (h.transfer.mp he))
    have hle := hprefix.length_le
    rw [hsent, h₂.sent, h.relay.sent] at hgrown
    simp only [List.length_append] at hgrown hle
    omega
  · exact .inr (.inl hall)

/-- A malformed size line is rejected exactly where it stops the transfer, in a message that is
    not itself a HEAD request: of that no body is transferred, and 0 is returned. -/
theorem sizeRejected_iff
    (henc : netDataGetEnt data (bytesOf "Transfer-Encoding") = some (bytesOf "chunked"))
    (hok : w.Ok) (hlive : w.Live src) (hline : NoEol line) (ht : Terminator t rest)
    (hu : w.unread src = pre.flatMap DataChunk.bytes ++ (line ++ t ++ rest)) :
    SizeRejected src data pre line w ↔ WellFormedSize line ∨
      data.buf.str 0 ≠ bytesOf "HEAD" ∧ StopsAt src pre line t rest w := by
  have hbuf := strbufInit_holds.raw
  by_cases hwell : WellFormedSize line
  · exact iff_of_true (fun hbad => absurd hwell hbad) (.inl hwell)
  rw [or_iff_right hwell]
  constructor
  · intro h
    obtain ⟨⟨ret, w', he, hret, hput⟩, hcopies⟩ := h hwell
    have hhead : data.buf.str 0 ≠ bytesOf "HEAD" := by
      intro hhead
      rw [netTransferBody, if_pos hhead] at he
      exact hret (Eval.of_ret he).1
    rw [netTransferBody_chunked _ _ hhead henc] at he
    exact ⟨hhead, stops_of_rejected hok hlive hbuf hline ht hu ⟨ret, w', he, hret, hput⟩ hcopies⟩
  · rintro ⟨hhead, hstops⟩ -
    rw [netTransferBody_chunked _ _ hhead henc]
    exact rejected_of_stops hok hlive hbuf hline ht hu hstops

end

-- ============================================================================
-- Two lines
-- ============================================================================

/-- A chunked response. -/
def chunkedData : NetData :=
  oneFieldData (bytesOf "HTTP/1.1 200 OK") (bytesOf "Transfer-Encoding: chunked")

/-- A size line "z" followed by the byte 0xFF is rejected. -/
theorem sizeRejected_ff : SizeRejected .server chunkedData [] [122, 255]
    (.serving ([122, 255] ++ CRLF ++ [97])) :=
  (sizeRejected_iff (by decide +kernel) (Wire.serving_ok _) (Wire.serving_live _) (by decide)
    (.crlf [97]) (Wire.serving_unread _)).mpr
      (.inr ⟨by decide +kernel, .inl (.inr (.inl (by decide)))⟩)

/-- A size line "x" is not: one byte is copied for it, and what follows that is taken for the
    last chunk. -/
theorem not_sizeRejected_x :
    ¬ SizeRejected .server chunkedData [] [120]
        (.serving ([120] ++ CRLF ++ (97 :: 48 :: CRLF ++ CRLF))) ∧
      ∃ w', Evals (netTransferBody .client .server chunkedData)
        (.serving ([120] ++ CRLF ++ (97 :: 48 :: CRLF ++ CRLF))) 0 w' := by
  have hx : scanLine (HTTP_CHUNK_HEADER_MAXLEN - 1) ([120] ++ CRLF ++ (97 :: 48 :: CRLF ++ CRLF)) =
      (.eol, [120], 97 :: 48 :: CRLF ++ CRLF) := rfl
  have hzero : scanLine (HTTP_CHUNK_HEADER_MAXLEN - 1) ([48] ++ CRLF ++ CRLF) =
      (.eol, [48], CRLF) := rfl
  have hlast : ChunksRun ([48] ++ CRLF ++ CRLF) 0 ([48] ++ CRLF ++ CRLF) :=
    .last hzero (by decide) (by decide) (.last rfl)
  have hrun : BodyRun chunkedData ([120] ++ CRLF ++ (97 :: 48 :: CRLF ++ CRLF)) 0
      ([120] ++ CRLF ++ ([97] ++ ([48] ++ CRLF ++ CRLF))) :=
    .chunked (by decide +kernel) (by decide +kernel)
      (.next (m := 1) hx (by decide) (by decide) (by decide) (by decide) hlast)
  have hu := Wire.serving_unread ([120] ++ CRLF ++ (97 :: 48 :: CRLF ++ CRLF))
  rw [← hu] at hrun
  obtain ⟨got, w', he, _⟩ := hrun.evals (Wire.serving_ok _) (Wire.serving_live _)
    ((Wire.serving_willing _).takes _)
  refine ⟨fun h => ?_, w', he⟩
  have hbad : ¬ WellFormedSize [120] := by
    rintro ⟨ds, ext, hsplit, ⟨hne, hall⟩, _⟩
    obtain ⟨d, ds, rfl⟩ := List.exists_cons_of_ne_nil hne
    have hd : 120 = d := (List.cons.inj hsplit).1
    have hhex := hall d List.mem_cons_self
    rw [← hd] at hhex
    exact absurd hhex (by decide)
  obtain ⟨⟨ret, w₁, he₁, hret, _⟩, _⟩ := h hbad
  exact hret (he₁.det he).1

end HttpProxy
