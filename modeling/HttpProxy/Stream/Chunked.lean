/-
  HttpProxy.Stream.Chunked

  A whole chunked body: chunks, the last chunk, trailer lines and the blank line.
  It is relayed byte for byte unless a trailer line stops the line reader: one
  that holds the byte 0xFF, or one that is one byte shorter than the limit.
-/

import HttpProxy.Stream.Chunks

namespace HttpProxy

open Lib

/-- A well-formed chunked body. -/
structure ChunkedBody where
  chunks : List DataChunk
  last : SizeLine 0
  trailers : List Bytes
  trailer : ∀ t ∈ trailers, t ≠ [] ∧ NoEol t ∧ t.length < HTTP_HEADER_MAXLEN

/-- Trailer lines and the blank line behind them. -/
def trailerBytes (trailers : List Bytes) : Bytes := trailers.flatMap (· ++ CRLF) ++ CRLF

def ChunkedBody.bytes (b : ChunkedBody) : Bytes :=
  b.chunks.flatMap DataChunk.bytes ++ (b.last.line ++ CRLF) ++ trailerBytes b.trailers

-- ============================================================================
-- Trailers
-- ============================================================================

/-- The body of the trailer loop. -/
def trailerBody (dst src : Role) (buf : Strbuf) : Io (Strbuf ⊕ Int) := do
  let (ret, buf) ← connGets src HTTP_HEADER_MAXLEN (strbufReset buf)
  if ret < 0 then return .inr ret
  else do
    let buf := strbufCat buf (bytesOf "\r\n")
    let wret ← connWrite dst buf.content
    if wret ≠ 0 then return .inr (-1)
    else if ret = 0 then return .inr 0
    else return .inl buf

/-- A trailer line the line reader accepts. -/
def GoodTrailer (t : Bytes) : Prop := 255 ∉ t ∧ t.length + 1 ≠ HTTP_HEADER_MAXLEN

instance (t : Bytes) : Decidable (GoodTrailer t) := by
  unfold GoodTrailer
  infer_instance

section

variable {w : Wire} {src : Role} {buf : Strbuf} {s t rest : Bytes}

/-- A line that is read is written again with CR LF; the blank line ends the loop. -/
theorem trailerBody_line (hok : w.Ok) (hlive : w.Live src) (hbuf : buf.Raw s)
    (hscan : scanLine (HTTP_HEADER_MAXLEN - 1) (w.unread src) = (.eol, t, rest))
    (htakes : w.Takes src.other (t ++ CRLF).length) :
    ∃ e w₁ buf₁, Terminator e rest ∧
      Evals (trailerBody src.other src buf) w (if t = [] then .inr 0 else .inl buf₁) w₁ ∧
      Relay src w w₁ (t ++ e) (t ++ CRLF) ∧ w₁.unread src = rest ∧ buf₁.Raw (t ++ CRLF) := by
  obtain ⟨e, w₁, ht, he₁, h₁, hu₁⟩ :=
    connGets_line HTTP_HEADER_MAXLEN (by decide) hok hlive hscan
  have hbuf₁ := lineOut_holds hbuf t
  have hok₁ := evals_ok he₁ hok
  have htakes₁ : w₁.Takes src.other (t ++ CRLF).length := h₁.takes.mpr htakes
  have hpos : 0 < (t ++ CRLF).length := by simp [CRLF]
  obtain ⟨w₂, he₂, h₂, hsrc⟩ := connWrite_takes hok₁ (htakes₁.live hpos) htakes₁
  have hrelay := h₁.trans h₂
  rw [List.append_nil, List.nil_append] at hrelay
  have hu₂ : w₂.unread src = rest := by rw [← hu₁, h₂.unread]; rfl
  refine ⟨e, w₂, _, ht, he₁.bind ?_, hrelay, hu₂, hbuf₁.raw⟩
  have hret : ¬ (t.length : Int) < 0 := by omega
  simp only [hret, if_false]
  rw [← hbuf₁.raw.content] at he₂
  refine he₂.bind ?_
  by_cases hnil : t = []
  · simp [hnil]
  · simp [hnil, CRLF, bytesOf]

/-- The destination does not take the line: the loop ends with -1. -/
theorem trailerBody_lost {k : Nat} (hok : w.Ok) (hlive : w.Live src) (hbuf : buf.Raw s)
    (hscan : scanLine (HTTP_HEADER_MAXLEN - 1) (w.unread src) = (.eol, t, rest))
    (hroom : w.room src.other = some k) (hk : k < (t ++ CRLF).length) :
    ∃ got w₁, Evals (trailerBody src.other src buf) w (.inr (-1)) w₁ ∧
      Broken src w w₁ got ((t ++ CRLF).take k) := by
  obtain ⟨e, w₁, ht, he₁, h₁, hu₁⟩ :=
    connGets_line HTTP_HEADER_MAXLEN (by decide) hok hlive hscan
  have hbuf₁ := lineOut_holds hbuf t
  have hroom₁ : w₁.room src.other = some k := by rw [h₁.room, hroom]; rfl
  obtain ⟨w₂, he₂, h₂, hsrc⟩ := connWrite_breaks (evals_ok he₁ hok) hroom₁ hk
  refine ⟨_, w₂, he₁.bind ?_, h₁.toMoved.broken h₂⟩
  have hret : ¬ (t.length : Int) < 0 := by omega
  simp only [hret, if_false]
  rw [← hbuf₁.raw.content] at he₂
  exact he₂.bind (by simp)

/-- A line that cannot be read to its end: the loop ends with -1. -/
theorem trailerBody_stop (buf : Strbuf) (hok : w.Ok) (hlive : w.Live src)
    (hstop : (scanLine (HTTP_HEADER_MAXLEN - 1) (w.unread src)).1 ≠ .eol) :
    ∃ got w₁, Evals (trailerBody src.other src buf) w (.inr (-1)) w₁ ∧
      LineRead src w (HTTP_HEADER_MAXLEN - 1) got w₁ := by
  obtain ⟨got, buf₁, w₁, he, hread⟩ :=
    connGets_stop HTTP_HEADER_MAXLEN (by decide) buf hok hlive hstop
  exact ⟨got, w₁, he.bind (by simp), hread⟩

/-- A good line is relayed as it is. -/
theorem trailerBody_good (hok : w.Ok) (hlive : w.Live src) (hdst : w.Willing src.other)
    (hbuf : buf.Raw s) (hline : NoEol t) (hff : 255 ∉ t) (hlen : t.length + 1 < HTTP_HEADER_MAXLEN)
    (hu : w.unread src = t ++ CRLF ++ rest) :
    ∃ w₁ buf₁, Evals (trailerBody src.other src buf) w
        (if t = [] then .inr 0 else .inl buf₁) w₁ ∧
      Relay src w w₁ (t ++ CRLF) (t ++ CRLF) ∧ w₁.unread src = rest ∧ buf₁.Raw (t ++ CRLF) := by
  have hscan : scanLine (HTTP_HEADER_MAXLEN - 1) (w.unread src) = (.eol, t, rest) := by
    rw [hu]
    exact scanLine_line hline hff (.crlf rest) (by simp [CRLF]) (by omega)
  obtain ⟨e, w₁, buf₁, _, he₁, h₁, hu₁, hbuf₁⟩ :=
    trailerBody_line hok hlive hbuf hscan (hdst.takes _)
  obtain rfl : CRLF = e := h₁.got_end hu hu₁
  exact ⟨w₁, buf₁, he₁, h₁, hu₁, hbuf₁⟩

/-- Any other line ends the transfer with -1. -/
theorem trailerBody_bad (buf : Strbuf) (hok : w.Ok) (hlive : w.Live src) (hline : NoEol t)
    (hbad : ¬ GoodTrailer t) (hu : w.unread src = t ++ CRLF ++ rest) :
    ∃ w₁, Evals (trailerBody src.other src buf) w (.inr (-1)) w₁ := by
  obtain ⟨got, w₁, he, _⟩ := trailerBody_stop buf hok hlive fun heol => by
    rw [hu, CRLF, scanLine_eol_iff hline] at heol
    exact hbad ⟨heol.1, by omega⟩
  exact ⟨w₁, he⟩

theorem trailerBytes_cons (t : Bytes) (ts : List Bytes) :
    trailerBytes (t :: ts) = t ++ CRLF ++ trailerBytes ts := by
  simp [trailerBytes]

/-- Good trailer lines are relayed. -/
theorem trailers_good (ts : List Bytes)
    (hts : ∀ t ∈ ts, t ≠ [] ∧ NoEol t ∧ t.length < HTTP_HEADER_MAXLEN)
    (hgood : ∀ t ∈ ts, GoodTrailer t) (hok : w.Ok) (hlive : w.Live src)
    (hdst : w.Willing src.other) (hbuf : buf.Raw s)
    (hu : w.unread src = trailerBytes ts ++ rest) :
    ∃ w', Evals (netTransferTrailer src.other src buf) w 0 w' ∧
      Relay src w w' (trailerBytes ts) (trailerBytes ts) ∧ w'.unread src = rest := by
  induction ts generalizing w buf s with
  | nil =>
      obtain ⟨w₁, buf₁, he₁, h₁, hu₁, _⟩ := trailerBody_good hok hlive hdst hbuf
        (by simp [NoEol]) (by simp) (by decide) (show w.unread src = [] ++ CRLF ++ rest from hu)
      rw [if_pos rfl] at he₁
      exact ⟨w₁, Eval.loop_inr he₁, h₁, hu₁⟩
  | cons t ts ih =>
      rw [List.forall_mem_cons] at hts hgood
      obtain ⟨⟨hne, hline, hlen⟩, hts⟩ := hts
      obtain ⟨⟨hff, hlimit⟩, hgood⟩ := hgood
      rw [trailerBytes_cons, List.append_assoc] at hu
      obtain ⟨w₁, buf₁, he₁, h₁, hu₁, hbuf₁⟩ := trailerBody_good hok hlive hdst hbuf hline hff
        (by omega) hu
      rw [if_neg hne] at he₁
      have hlive₁ : w₁.Live src := h₁.live hlive
      obtain ⟨w', he', h', hu'⟩ := ih hts hgood (evals_ok he₁ hok) hlive₁ (h₁.willing hdst)
        hbuf₁ hu₁
      rw [trailerBytes_cons]
      exact ⟨w', Eval.loop_inl he₁ he', h₁.trans h', hu'⟩

/-- A bad trailer line ends the transfer with -1. -/
theorem trailers_bad (ts : List Bytes)
    (hts : ∀ t ∈ ts, t ≠ [] ∧ NoEol t ∧ t.length < HTTP_HEADER_MAXLEN)
    (hbad : ¬ ∀ t ∈ ts, GoodTrailer t) (hok : w.Ok) (hlive : w.Live src)
    (hdst : w.Willing src.other) (hbuf : buf.Raw s)
    (hu : w.unread src = trailerBytes ts ++ rest) :
    ∃ w', Evals (netTransferTrailer src.other src buf) w (-1) w' := by
  induction ts generalizing w buf s with
  | nil => exact absurd (by simp) hbad
  | cons t ts ih =>
      rw [List.forall_mem_cons] at hts
      obtain ⟨⟨hne, hline, hlen⟩, hts⟩ := hts
      rw [trailerBytes_cons, List.append_assoc] at hu
      by_cases hgood : GoodTrailer t
      · obtain ⟨w₁, buf₁, he₁, h₁, hu₁, hbuf₁⟩ := trailerBody_good hok hlive hdst hbuf hline
          hgood.1 (by have := hgood.2; omega) hu
        rw [if_neg hne] at he₁
        have hlive₁ : w₁.Live src := h₁.live hlive
        have hbad' : ¬ ∀ t ∈ ts, GoodTrailer t := fun h =>
          hbad (List.forall_mem_cons.mpr ⟨hgood, h⟩)
        obtain ⟨w', he'⟩ := ih hts hbad' (evals_ok he₁ hok) hlive₁ (h₁.willing hdst) hbuf₁ hu₁
        exact ⟨w', Eval.loop_inl he₁ he'⟩
      · obtain ⟨w₁, he₁⟩ := trailerBody_bad buf hok hlive hline hgood hu
        exact ⟨w₁, Eval.loop_inr he₁⟩

end

-- ============================================================================
-- The whole body
-- ============================================================================

section

variable {w : Wire} {src : Role} {data : NetData} {body : ChunkedBody} {rest : Bytes}

/-- The transfer of a chunked message up to its trailer. -/
theorem netTransferBody_chunks (hhead : data.buf.str 0 ≠ bytesOf "HEAD")
    (henc : netDataGetEnt data (bytesOf "Transfer-Encoding") = some (bytesOf "chunked"))
    (hok : w.Ok) (hlive : w.Live src) (hdst : w.Willing src.other)
    (hu : w.unread src = body.bytes ++ rest) :
    ∃ w₁ buf₁ s₁, w₁.Ok ∧ w₁.Live src ∧ w₁.Willing src.other ∧ buf₁.Raw s₁ ∧
      w₁.unread src = trailerBytes body.trailers ++ rest ∧
      (∀ w' got put, Relay src w₁ w' got put →
        Relay src w w' (body.chunks.flatMap DataChunk.bytes ++ (body.last.line ++ CRLF) ++ got)
          (body.chunks.flatMap DataChunk.bytes ++ (body.last.line ++ CRLF) ++ put)) ∧
      ∀ ret w', Evals (netTransferTrailer src.other src buf₁) w₁ ret w' →
        Evals (netTransferBody src.other src data) w ret w' := by
  have hu₀ : w.unread src = body.chunks.flatMap DataChunk.bytes ++
      (body.last.line ++ CRLF ++ (trailerBytes body.trailers ++ rest)) := by
    rw [hu, ChunkedBody.bytes]
    simp only [List.append_assoc]
  obtain ⟨w₁, buf₁, s₁, hok₁, h₁, hu₁, hbuf₁, hgo₁⟩ :=
    chunks_eval body.chunks hok hlive hdst strbufInit_holds.raw hu₀
  have hlive₁ : w₁.Live src := h₁.live hlive
  have hdst₁ := h₁.willing hdst
  obtain ⟨w₂, buf₂, s₂, he₂, h₂, hu₂, hbuf₂⟩ :=
    lastChunk_eval body.last hok₁ hlive₁ hdst₁ hbuf₁ hu₁
  have hchunks : Evals (netTransferChunks src.other src strbufInit) w (0, buf₂) w₂ :=
    (hgo₁ _ _).mpr he₂
  have hlive₂ : w₂.Live src := h₂.live hlive₁
  refine ⟨w₂, buf₂, s₂, evals_ok he₂ hok₁, hlive₂, h₂.willing hdst₁, hbuf₂, hu₂,
    fun w' got put h => (h₁.trans h₂).trans h, fun ret w' h => ?_⟩
  rw [netTransferBody, if_neg hhead, if_pos henc]
  exact hchunks.bind h

/-- `net_transfer_body_HTTP_1_1` relays a chunked body exactly: it returns 0, has
    written the body, and has left what follows it. -/
def ChunkedExact (src : Role) (data : NetData) (body : ChunkedBody) (rest : Bytes) (w : Wire) :
    Prop :=
  ∃ w', Evals (netTransferBody src.other src data) w 0 w' ∧
    (w'.sock src.other).sent = (w.sock src.other).sent ++ body.bytes ∧ w'.unread src = rest

theorem not_chunkedExact
    (henc : netDataGetEnt data (bytesOf "Transfer-Encoding") = some (bytesOf "chunked"))
    (hok : w.Ok) (hlive : w.Live src) (hdst : w.Willing src.other)
    (hu : w.unread src = body.bytes ++ rest)
    (hbad : data.buf.str 0 = bytesOf "HEAD" ∨ ¬ ∀ t ∈ body.trailers, GoodTrailer t) :
    ¬ ChunkedExact src data body rest w := by
  rintro ⟨w', he, hsent, _⟩
  by_cases hhead : data.buf.str 0 = bytesOf "HEAD"
  · -- the message is a HEAD request: nothing is written
    have hnone : Evals (netTransferBody src.other src data) w 0 w := by
      rw [netTransferBody, if_pos hhead]
      exact .ret 0 w
    obtain ⟨_, rfl⟩ := he.det hnone
    have hnil : body.bytes = [] := (List.append_right_eq_self).mp hsent.symm
    have hlen := congrArg List.length hnil
    simp [ChunkedBody.bytes, CRLF] at hlen
  · have hts := hbad.resolve_left hhead
    obtain ⟨w₁, buf₁, s₁, hok₁, hlive₁, hdst₁, hbuf₁, hu₁, _, hgo⟩ :=
      netTransferBody_chunks hhead henc hok hlive hdst hu
    obtain ⟨w₂, he₂⟩ := trailers_bad body.trailers body.trailer hts hok₁ hlive₁ hdst₁ hbuf₁ hu₁
    have hret := (he.det (hgo _ _ he₂)).1
    omega

/-- The chunked relay is exact for every body whose trailer lines hold no 0xFF and are
    not one byte shorter than the limit, and only for these, where the message itself is
    not a HEAD request: of that no body is transferred. -/
theorem chunkedExact_iff
    (henc : netDataGetEnt data (bytesOf "Transfer-Encoding") = some (bytesOf "chunked"))
    (hok : w.Ok) (hlive : w.Live src) (hdst : w.Willing src.other)
    (hu : w.unread src = body.bytes ++ rest) :
    ChunkedExact src data body rest w ↔ data.buf.str 0 ≠ bytesOf "HEAD" ∧
      ∀ t ∈ body.trailers, 255 ∉ t ∧ t.length + 1 ≠ HTTP_HEADER_MAXLEN := by
  refine ⟨fun h => ?_, fun ⟨hhead, hgood⟩ => ?_⟩
  · by_contra hbad
    rw [not_and_or, not_not] at hbad
    exact not_chunkedExact henc hok hlive hdst hu hbad h
  · obtain ⟨w₁, buf₁, s₁, hok₁, hlive₁, hdst₁, hbuf₁, hu₁, hall, hgo⟩ :=
      netTransferBody_chunks hhead henc hok hlive hdst hu
    obtain ⟨w', he', h', hu'⟩ := trailers_good body.trailers body.trailer hgood hok₁ hlive₁ hdst₁
      hbuf₁ hu₁
    exact ⟨w', hgo _ _ he', (hall _ _ _ h').sent, hu'⟩

end

-- ============================================================================
-- Two trailers
-- ============================================================================

/-- One chunk "abc" and one trailer line. -/
def abcBody (t : Bytes) (h : t ≠ [] ∧ NoEol t ∧ t.length < HTTP_HEADER_MAXLEN) : ChunkedBody where
  chunks := [{
    data := [97, 98, 99]
    size := {
      digits := [51]
      ext := [59, 120]
      hex := by decide
      value := by decide
      semicolon := by simp
      plain := by simp
      fits := by decide }
    nonempty := by decide
    bound := by decide }]
  last := {
    digits := [48]
    ext := []
    hex := by decide
    value := by decide
    semicolon := by simp
    plain := by simp
    fits := by decide }
  trailers := [t]
  trailer := by
    intro t' ht'
    rw [List.mem_singleton] at ht'
    exact ht' ▸ h

/-- A trailer "a:b". -/
theorem chunkedExact_abc :
    ChunkedExact .server (oneFieldData (bytesOf "HTTP/1.1 200 OK")
        (bytesOf "Transfer-Encoding: chunked"))
      (abcBody [97, 58, 98] (by decide)) [72]
      (.fresh ([], []) ([.data 51 [59, 120, 13], .block, .data 10 [97, 98, 99, 13, 10, 48],
        .data 13 [10, 97, 58, 98, 13, 10, 13, 10, 72]], [])) :=
  (chunkedExact_iff (by decide +kernel) (Wire.fresh_ok _ _) (Wire.fresh_live _ _ _) (by rfl)
    (by decide)).mpr ⟨by decide +kernel, by decide⟩

/-- A trailer "a:" followed by the byte 0xFF. -/
theorem chunkedExact_ff :
    ¬ ChunkedExact .server (oneFieldData (bytesOf "HTTP/1.1 200 OK")
        (bytesOf "Transfer-Encoding: chunked"))
      (abcBody [97, 58, 255] (by decide)) [72]
      (.fresh ([], []) ([.data 51 [59, 120, 13], .block, .data 10 [97, 98, 99, 13, 10, 48],
        .data 13 [10, 97, 58, 255, 13, 10, 13, 10, 72]], [])) :=
  not_chunkedExact (by decide +kernel) (Wire.fresh_ok _ _) (Wire.fresh_live _ _ _) (by rfl)
    (by decide) (.inr (by decide))

end HttpProxy
