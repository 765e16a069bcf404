/-
  HttpProxy.Stream.Chunks

  The chunk loop of net_transfer_body_HTTP_1_1.  A round reads a size line,
  writes it again with CR LF, and copies the data and the CR LF behind it.
  `chunks_eval` relays a list of well-formed chunks; what follows them decides
  what the loop returns.
-/

import HttpProxy.Stream.Line
import HttpProxy.Stream.Length
import HttpProxy.Stream.Rebuild

namespace HttpProxy

open Lib

-- ============================================================================
-- The wire format
-- ============================================================================

/-- A size line of at most 254 bytes that announces `n` bytes: a hexadecimal number,
    and an extension that starts with a semicolon. -/
structure SizeLine (n : Nat) where
  digits : Bytes
  ext : Bytes
  hex : HexDigits digits
  value : digitsVal 16 digits = n
  semicolon : ∀ b ∈ ext.head?, b = 59
  plain : ∀ b ∈ ext, b ≠ 13 ∧ b ≠ 10 ∧ b ≠ 0 ∧ b ≠ 255
  fits : digits.length + ext.length ≤ 254

/-- A chunk with data. -/
structure DataChunk where
  data : Bytes
  size : SizeLine data.length
  nonempty : data ≠ []
  bound : data.length ≤ 2 ^ 31 - 3

namespace SizeLine

variable {n : Nat} (l : SizeLine n)

def line : Bytes := l.digits ++ l.ext

/-- Every byte of a size line is a digit or belongs to the extension. -/
theorem mem_line {b : UInt8} (hb : b ∈ l.line) : b ≠ 13 ∧ b ≠ 10 ∧ b ≠ 0 ∧ b ≠ 255 := by
  rcases List.mem_append.mp hb with hd | he
  · have hhex := l.hex.2 b hd
    refine ⟨?_, ?_, ?_, ?_⟩ <;> rintro rfl <;> exact absurd hhex (by decide)
  · exact l.plain b he

theorem noEol : NoEol l.line := by
  intro b hb
  obtain ⟨hcr, hlf, _, _⟩ := l.mem_line hb
  exact notEol_iff.mpr ⟨hlf, hcr⟩

theorem not_mem_ff : 255 ∉ l.line := fun hb => (l.mem_line hb).2.2.2 rfl

theorem line_ne_nil : l.line ≠ [] := by
  have hne := l.hex.1
  simp [line, hne]

theorem line_length : l.line.length ≤ 254 := by
  rw [line, List.length_append]
  exact l.fits

/-- The number is read back from the line as it is forwarded. -/
theorem sscanfX (hn : n < 2 ^ 31) : sscanfX (l.line ++ CRLF) = some (n : Int) := by
  have hrest : ∀ b ∈ (l.ext ++ CRLF).head?, b = 59 ∨ b = 13 := by
    intro b hb
    cases hext : l.ext with
    | nil =>
        rw [hext] at hb
        exact .inr (Option.some.inj hb).symm
    | cons c ext =>
        have hsemi := l.semicolon
        rw [hext] at hb hsemi
        exact .inl (hsemi b hb)
  have hvalue := l.value
  have hscan : HttpProxy.sscanfX (l.digits ++ (l.ext ++ CRLF)) =
      some (digitsVal 16 l.digits : Int) :=
    sscanfX_hex l.hex (fun b hb => by rcases hrest b hb with rfl | rfl <;> decide)
      (fun b hb => by rcases hrest b hb with rfl | rfl <;> decide) (by omega)
  rw [line, List.append_assoc, hscan, hvalue]

end SizeLine

/-- The bytes of a chunk. -/
def DataChunk.bytes (c : DataChunk) : Bytes := c.size.line ++ CRLF ++ (c.data ++ CRLF)

/-- The size the proxy reads from a line it has forwarded: -1 when there is no number. -/
def announced (line : Bytes) : Int :=
  (HttpProxy.sscanfX ((line ++ CRLF).takeWhile (· ≠ 0))).getD (-1)

-- ============================================================================
-- One round
-- ============================================================================

/-- A round of the chunk loop behind the size line it has forwarded. -/
def chunkData (dst src : Role) (buf : Strbuf) : Io (Strbuf ⊕ (Int × Strbuf)) := do
  let len := (HttpProxy.sscanfX (buf.str 0)).getD (-1)
  if len = 0 then return .inr (0, buf)
  else do
    let ret ← connCopy dst src (toInt32 (len + 2))
    if ret ≠ 0 then return .inr (ret, buf) else return .inl buf

/-- The body of the chunk loop. -/
def chunkBody (dst src : Role) (buf : Strbuf) : Io (Strbuf ⊕ (Int × Strbuf)) := do
  let (ret, buf) ← connGets src HTTP_CHUNK_HEADER_MAXLEN (strbufReset buf)
  if ret ≤ 0 then return .inr (-1, buf)
  else do
    let buf := strbufCat buf (bytesOf "\r\n")
    let ret ← connWrite dst buf.content
    if ret ≠ 0 then return .inr (ret, buf)
    else chunkData dst src buf

section

variable {w : Wire} {src : Role} {buf : Strbuf} {s line t rest : Bytes}

/-- Reading into a buffer that was reset. -/
theorem connGets_reset (lenLimit : Nat) (hpos : 0 < lenLimit) (buf : Strbuf) (hok : w.Ok)
    (hlive : w.Live src) :
    ∃ got w₁, Evals (connGets src lenLimit (strbufReset buf)) w
        (lineRet (scanLine (lenLimit - 1) (w.unread src)),
          strbufCat (strbufReset buf) (scanLine (lenLimit - 1) (w.unread src)).2.1) w₁ ∧
      LineRead src w (lenLimit - 1) got w₁ :=
  connGets_eval hok (.inl hlive) (.inl (strbufReset_room buf hpos))

/-- A line that is accepted is read with its end. -/
theorem connGets_line (lenLimit : Nat) (hpos : 0 < lenLimit) (hok : w.Ok) (hlive : w.Live src)
    (hscan : scanLine (lenLimit - 1) (w.unread src) = (.eol, line, rest)) :
    ∃ t w₁, Terminator t rest ∧
      Evals (connGets src lenLimit (strbufReset buf)) w
        (line.length, strbufCat (strbufReset buf) line) w₁ ∧
      Relay src w w₁ (line ++ t) [] ∧ w₁.unread src = rest := by
  obtain ⟨got, w₁, he, hread⟩ := connGets_reset lenLimit hpos buf hok hlive
  have heol : (scanLine (lenLimit - 1) (w.unread src)).1 = .eol := by rw [hscan]
  obtain ⟨t, _, _, ht, hu⟩ := scanLine_eol heol
  have hrelay := hread.relay (by rw [heol]; decide)
  have hunread : w₁.unread src = rest := by rw [hread.unread, hscan]
  rw [hscan] at he ht hu
  rw [lineRet, if_pos rfl] at he
  have hgot : got = line ++ t := by
    have happ := hrelay.unread
    rw [hu, hunread] at happ
    exact (List.append_cancel_right happ).symm
  exact ⟨t, w₁, ht, he, hgot ▸ hrelay, hunread⟩

/-- A line that cannot be read to its end. -/
theorem connGets_stop (lenLimit : Nat) (hpos : 0 < lenLimit) (buf : Strbuf) (hok : w.Ok)
    (hlive : w.Live src) (hstop : (scanLine (lenLimit - 1) (w.unread src)).1 ≠ .eol) :
    ∃ got buf₁ w₁, Evals (connGets src lenLimit (strbufReset buf)) w (-1, buf₁) w₁ ∧
      LineRead src w (lenLimit - 1) got w₁ := by
  obtain ⟨got, w₁, he, hread⟩ := connGets_reset lenLimit hpos buf hok hlive
  rw [lineRet, if_neg hstop] at he
  exact ⟨got, _, w₁, he, hread⟩

/-- The buffer that is written for a line. -/
theorem lineOut_holds (hbuf : buf.Raw s) (line : Bytes) :
    (strbufCat (strbufCat (strbufReset buf) line) CRLF).Holds (line ++ CRLF) := by
  rw [← strbufCat_append]
  exact strbufCat_holds_of_raw hbuf.reset (by simp [CRLF])

/-- A size line that is read is written again with CR LF. -/
theorem chunkBody_line (hok : w.Ok) (hlive : w.Live src) (hbuf : buf.Raw s)
    (hscan : scanLine (HTTP_CHUNK_HEADER_MAXLEN - 1) (w.unread src) = (.eol, line, rest))
    (hne : line ≠ []) (htakes : w.Takes src.other (line ++ CRLF).length) :
    ∃ t w₁ buf₁, Terminator t rest ∧ w₁.Ok ∧ Relay src w w₁ (line ++ t) (line ++ CRLF) ∧
      w₁.unread src = rest ∧ buf₁.Holds (line ++ CRLF) ∧
      ∀ y w', Evals (chunkBody src.other src buf) w y w' ↔
        Evals (chunkData src.other src buf₁) w₁ y w' := by
  obtain ⟨t, w₁, ht, he₁, h₁, hu₁⟩ :=
    connGets_line HTTP_CHUNK_HEADER_MAXLEN (by decide) hok hlive hscan
  have hbuf₁ := lineOut_holds hbuf line
  have hok₁ := evals_ok he₁ hok
  have htakes₁ : w₁.Takes src.other (line ++ CRLF).length := h₁.takes.mpr htakes
  have hpos : 0 < (line ++ CRLF).length := by simp [CRLF]
  obtain ⟨w₂, he₂, h₂, hsrc⟩ := connWrite_takes hok₁ (htakes₁.live hpos) htakes₁
  have hrelay := h₁.trans h₂
  rw [List.append_nil, List.nil_append] at hrelay
  have hu₂ : w₂.unread src = rest := by rw [← hu₁, h₂.unread]; rfl
  refine ⟨t, w₂, _, ht, evals_ok he₂ hok₁, hrelay, hu₂, hbuf₁, fun y w' => ?_⟩
  have hret : ¬ (line.length : Int) ≤ 0 := by
    have hlen := List.length_pos_iff.mpr hne
    omega
  refine he₁.bind_iff.trans ?_
  simp only [hret, if_false]
  rw [← hbuf₁.raw.content] at he₂
  exact he₂.bind_iff

/-- The destination does not take the size line: the round ends with -1. -/
theorem chunkBody_lost {k : Nat} (hok : w.Ok) (hlive : w.Live src) (hbuf : buf.Raw s)
    (hscan : scanLine (HTTP_CHUNK_HEADER_MAXLEN - 1) (w.unread src) = (.eol, line, rest))
    (hne : line ≠ []) (hroom : w.room src.other = some k) (hk : k < (line ++ CRLF).length) :
    ∃ got w₁ buf₁, Evals (chunkBody src.other src buf) w (.inr (-1, buf₁)) w₁ ∧
      Broken src w w₁ got ((line ++ CRLF).take k) := by
  obtain ⟨t, w₁, ht, he₁, h₁, hu₁⟩ :=
    connGets_line HTTP_CHUNK_HEADER_MAXLEN (by decide) hok hlive hscan
  have hbuf₁ := lineOut_holds hbuf line
  have hok₁ := evals_ok he₁ hok
  have hroom₁ : w₁.room src.other = some k := by rw [h₁.room, hroom]; rfl
  obtain ⟨w₂, he₂, h₂, hsrc⟩ := connWrite_breaks hok₁ hroom₁ hk
  refine ⟨_, w₂, strbufCat (strbufCat (strbufReset buf) line) CRLF, he₁.bind ?_,
    h₁.toMoved.broken h₂⟩
  have hret : ¬ (line.length : Int) ≤ 0 := by
    have hlen := List.length_pos_iff.mpr hne
    omega
  simp only [hret, if_false]
  rw [← hbuf₁.raw.content] at he₂
  exact he₂.bind (by simp [CRLF, bytesOf])

/-- A size line that is empty or cannot be read to its end: the round ends with -1. -/
theorem chunkBody_stop (buf : Strbuf) (hok : w.Ok) (hlive : w.Live src)
    (hstop : (scanLine (HTTP_CHUNK_HEADER_MAXLEN - 1) (w.unread src)).1 = .eol →
      (scanLine (HTTP_CHUNK_HEADER_MAXLEN - 1) (w.unread src)).2.1 = []) :
    ∃ got w₁ buf₁, Evals (chunkBody src.other src buf) w (.inr (-1, buf₁)) w₁ ∧
      LineRead src w (HTTP_CHUNK_HEADER_MAXLEN - 1) got w₁ := by
  obtain ⟨got, w₁, he, hread⟩ :=
    connGets_reset HTTP_CHUNK_HEADER_MAXLEN (by decide) buf hok hlive
  refine ⟨got, w₁, strbufCat (strbufReset buf)
    (scanLine (HTTP_CHUNK_HEADER_MAXLEN - 1) (w.unread src)).2.1, he.bind ?_, hread⟩
  have hret : lineRet (scanLine (HTTP_CHUNK_HEADER_MAXLEN - 1) (w.unread src)) ≤ 0 := by
    rw [lineRet]
    split
    · rename_i heol
      rw [hstop heol]
      decide
    · decide
  simp only [hret, if_true]
  exact .ret _ _

theorem chunkData_eq (dst src : Role) (h : buf.Holds (line ++ CRLF)) :
    chunkData dst src buf =
      if announced line = 0 then pure (.inr (0, buf))
      else do
        let ret ← connCopy dst src (toInt32 (announced line + 2))
        if ret ≠ 0 then return .inr (ret, buf) else return .inl buf := by
  rw [chunkData, h.str_takeWhile]
  rfl

/-- The loop ends with the size 0. -/
theorem chunkData_zero {dst : Role} (h : buf.Holds (line ++ CRLF)) (hv : announced line = 0) :
    Evals (chunkData dst src buf) w (.inr (0, buf)) w := by
  rw [chunkData_eq dst src h, if_pos hv]
  exact .ret _ w

/-- The data of a chunk is copied together with the CR LF behind it. -/
theorem chunkData_copy {dst : Role} {m : Nat} {ret : Int} {w' : Wire}
    (h : buf.Holds (line ++ CRLF)) (hv : announced line ≠ 0)
    (hm : toInt32 (announced line + 2) = m) (he : Evals (connCopy dst src m) w ret w') :
    Evals (chunkData dst src buf) w (if ret ≠ 0 then .inr (ret, buf) else .inl buf) w' := by
  rw [chunkData_eq dst src h, if_neg hv, hm]
  refine he.bind ?_
  split <;> simp

end

-- ============================================================================
-- Well-formed chunks
-- ============================================================================

section

variable {w : Wire} {src : Role} {buf : Strbuf} {s rest : Bytes}

/-- The size line of a chunk is accepted. -/
theorem SizeLine.scan {n : Nat} (l : SizeLine n) (rest : Bytes) :
    scanLine (HTTP_CHUNK_HEADER_MAXLEN - 1) (l.line ++ CRLF ++ rest) = (.eol, l.line, rest) := by
  have hlen := l.line_length
  exact scanLine_line l.noEol l.not_mem_ff (.crlf rest) (by simp [CRLF])
    (show l.line.length < 255 by omega)

/-- The size of a well-formed line is read back. -/
theorem SizeLine.announced_eq {n : Nat} (l : SizeLine n) (hn : n < 2 ^ 31) :
    announced l.line = n := by
  have hnul : ∀ b ∈ l.line ++ CRLF, b ≠ 0 := by
    intro b hb
    rcases List.mem_append.mp hb with hl | hc
    · exact (l.mem_line hl).2.2.1
    · rintro rfl
      exact absurd hc (by decide)
  rw [announced, List.takeWhile_eq_self_iff.mpr (by simpa using hnul), l.sscanfX hn,
    Option.getD_some]

/-- The length `conn_copy` is called with for a well-formed chunk. -/
theorem DataChunk.copyLen (c : DataChunk) :
    toInt32 ((c.data.length : Int) + 2) = ((c.data ++ CRLF).length : Nat) := by
  have hbound := c.bound
  rw [toInt32_of_lt (by omega) (by omega), List.length_append]
  rfl

theorem DataChunk.bytes_append (c : DataChunk) (rest : Bytes) :
    c.bytes ++ rest = c.size.line ++ CRLF ++ (c.data ++ CRLF ++ rest) := by
  rw [DataChunk.bytes]
  simp only [List.append_assoc]

/-- What a round does with a well-formed chunk, whatever the destination takes of it. -/
theorem chunk_cases (c : DataChunk) (hok : w.Ok) (hlive : w.Live src) (hbuf : buf.Raw s)
    (hu : w.unread src = c.bytes ++ rest) :
    (∃ w₁ buf₁ s₁, Evals (chunkBody src.other src buf) w (.inl buf₁) w₁ ∧
        Relay src w w₁ c.bytes c.bytes ∧ w.Takes src.other c.bytes.length ∧ buf₁.Raw s₁) ∨
      (∃ k w₁ buf₁ s₁, Evals (chunkBody src.other src buf) w (.inl buf₁) w₁ ∧
        Broken src w w₁ c.bytes (c.bytes.take k) ∧ w₁.Live src ∧ buf₁.Raw s₁ ∧
        ¬ w.Takes src.other c.bytes.length) ∨
      ∃ k got w₁ buf₁, Evals (chunkBody src.other src buf) w (.inr (-1, buf₁)) w₁ ∧
        Broken src w w₁ got (c.bytes.take k) ∧ ¬ w.Takes src.other c.bytes.length := by
  rw [c.bytes_append] at hu
  have hscan := c.size.scan (c.data ++ CRLF ++ rest)
  rw [← hu] at hscan
  by_cases htakes : w.Takes src.other (c.size.line ++ CRLF).length
  · obtain ⟨t, w₁, buf₁, _, hok₁, h₁, hu₁, hbuf₁, hgo⟩ :=
      chunkBody_line hok hlive hbuf hscan c.size.line_ne_nil htakes
    obtain rfl : CRLF = t := h₁.got_end hu hu₁
    have hlive₁ : w₁.Live src := h₁.live hlive
    have hroom₁ {k : Nat} (h : w₁.room src.other = some k) (hk : k < (c.data ++ CRLF).length) :
        ¬ w.Takes src.other c.bytes.length := fun ht => by
      have hle := (h₁.takes_append.mp ht).2 k h
      omega
    have hpos : c.data.length ≠ 0 := fun h => c.nonempty (List.length_eq_zero_iff.mp h)
    have hbound := c.bound
    have hval := c.size.announced_eq (by omega)
    generalize hm : (c.data ++ CRLF).length = m
    have hcopy {ret : Int} {w' : Wire} (he : Evals (connCopy src.other src m) w₁ ret w') :
        Evals (chunkBody src.other src buf) w
          (if ret ≠ 0 then .inr (ret, buf₁) else .inl buf₁) w' :=
      (hgo _ _).mpr (chunkData_copy hbuf₁ (by omega) (hval ▸ hm ▸ c.copyLen) he)
    have htake : (w₁.unread src).take m = c.data ++ CRLF := by rw [hu₁, ← hm, List.take_left]
    have hput (k : Nat) (hk : k ≤ m) : c.size.line ++ CRLF ++ (w₁.unread src).take k =
        c.bytes.take ((c.size.line ++ CRLF).length + k) := by
      rw [DataChunk.bytes, List.take_length_add_append, ← htake, List.take_take,
        Nat.min_eq_left hk]
    by_cases hcond : (w₁.leftover src).length < m ∨ w₁.Takes src.other m
    · obtain ⟨ret, w₂, he₂, ho⟩ := connCopy_eval m hok₁ hcond
      cases ho with
      | done hr _ htakes₁ =>
          rw [htake] at hr
          rw [← hm] at htakes₁
          exact .inl ⟨w₂, buf₁, _, hcopy he₂, h₁.trans hr, h₁.takes_append.mpr ⟨htakes, htakes₁⟩,
            hbuf₁.raw⟩
      | ended k _ _ hk _ _ hend =>
          have hlen := hend hlive₁
          rw [hu₁, List.length_append] at hlen
          omega
      | broken k hb hroom hk =>
          have hall := h₁.toMoved.broken hb
          rw [hput k (by omega)] at hall
          exact .inr (.inr ⟨_, _, w₂, buf₁, hcopy he₂, hall, hroom₁ hroom (by omega)⟩)
    · rw [not_or, Nat.not_lt] at hcond
      obtain ⟨k, hroom, hk⟩ : ∃ k, w₁.room src.other = some k ∧ k < m := by
        simpa [Wire.Takes] using hcond.2
      obtain ⟨w₂, he₂, hb, hstat⟩ := connCopy_lost hok₁ hcond.1 hroom hk
      have hall := h₁.toMoved.broken hb
      rw [hput k (by omega), htake] at hall
      have hlive₂ : w₂.Live src := by rw [Wire.Live, hstat]; exact hlive₁
      exact .inr (.inl ⟨_, w₂, buf₁, _, hcopy he₂, hall, hlive₂, hbuf₁.raw,
        hroom₁ hroom (by omega)⟩)
  · obtain ⟨k, hroom, hk⟩ : ∃ k, w.room src.other = some k ∧ k < (c.size.line ++ CRLF).length := by
      simpa [Wire.Takes] using htakes
    obtain ⟨got, w₁, buf₁, he, hb⟩ :=
      chunkBody_lost hok hlive hbuf hscan c.size.line_ne_nil hroom hk
    rw [← List.take_append_of_le_length (Nat.le_of_lt hk), ← DataChunk.bytes] at hb
    refine .inr (.inr ⟨k, got, w₁, buf₁, he, hb, fun ht => htakes (ht.mono ?_)⟩)
    simp only [DataChunk.bytes, List.length_append]
    omega

/-- A well-formed chunk is relayed as it is. -/
theorem chunk_eval (c : DataChunk) (hok : w.Ok) (hlive : w.Live src) (hdst : w.Willing src.other)
    (hbuf : buf.Raw s) (hu : w.unread src = c.bytes ++ rest) :
    ∃ w₁ buf₁ s₁, Evals (chunkBody src.other src buf) w (.inl buf₁) w₁ ∧
      Relay src w w₁ c.bytes c.bytes ∧ buf₁.Raw s₁ := by
  rcases chunk_cases c hok hlive hbuf hu with ⟨w₁, buf₁, s₁, he, h, _, hbuf₁⟩ |
    ⟨_, _, _, _, _, _, _, _, hnot⟩ | ⟨_, _, _, _, _, _, hnot⟩
  · exact ⟨w₁, buf₁, s₁, he, h, hbuf₁⟩
  · exact absurd (hdst.takes _) hnot
  · exact absurd (hdst.takes _) hnot

/-- A list of well-formed chunks is relayed as it is, and the loop goes on behind it. -/
theorem chunks_eval (cs : List DataChunk) (hok : w.Ok) (hlive : w.Live src)
    (hdst : w.Willing src.other) (hbuf : buf.Raw s)
    (hu : w.unread src = cs.flatMap DataChunk.bytes ++ rest) :
    ∃ w₁ buf₁ s₁, w₁.Ok ∧
      Relay src w w₁ (cs.flatMap DataChunk.bytes) (cs.flatMap DataChunk.bytes) ∧
      w₁.unread src = rest ∧ buf₁.Raw s₁ ∧
      ∀ y w', Evals (netTransferChunks src.other src buf) w y w' ↔
        Evals (netTransferChunks src.other src buf₁) w₁ y w' := by
  induction cs generalizing w buf s with
  | nil => exact ⟨w, buf, s, hok, .refl src w, hu, hbuf, fun y w' => Iff.rfl⟩
  | cons c cs ih =>
      rw [List.flatMap_cons, List.append_assoc] at hu
      obtain ⟨w₁, buf₁, s₁, he₁, h₁, hbuf₁⟩ := chunk_eval c hok hlive hdst hbuf hu
      have hu₁ : w₁.unread src = cs.flatMap DataChunk.bytes ++ rest := h₁.unread_rest hu
      have hlive₁ : w₁.Live src := h₁.live hlive
      obtain ⟨w₂, buf₂, s₂, hok₂, h₂, hu₂, hbuf₂, hgo⟩ :=
        ih (evals_ok he₁ hok) hlive₁ (h₁.willing hdst) hbuf₁ hu₁
      refine ⟨w₂, buf₂, s₂, hok₂, h₁.trans h₂, hu₂, hbuf₂, fun y w' => ?_⟩
      exact (Eval.loop_iff he₁).trans (hgo y w')

/-- The last chunk ends the loop with 0. -/
theorem lastChunk_eval (l : SizeLine 0) (hok : w.Ok) (hlive : w.Live src)
    (hdst : w.Willing src.other) (hbuf : buf.Raw s)
    (hu : w.unread src = l.line ++ CRLF ++ rest) :
    ∃ w₁ buf₁ s₁, Evals (netTransferChunks src.other src buf) w (0, buf₁) w₁ ∧
      Relay src w w₁ (l.line ++ CRLF) (l.line ++ CRLF) ∧ w₁.unread src = rest ∧
      buf₁.Raw s₁ := by
  have hscan := l.scan rest
  rw [← hu] at hscan
  obtain ⟨t, w₁, buf₁, _, hok₁, h₁, hu₁, hbuf₁, hgo⟩ :=
    chunkBody_line hok hlive hbuf hscan l.line_ne_nil (hdst.takes _)
  obtain rfl : CRLF = t := h₁.got_end hu hu₁
  have hround : Evals (chunkBody src.other src buf) w (.inr (0, buf₁)) w₁ :=
    (hgo _ _).mpr (chunkData_zero hbuf₁ (l.announced_eq (by decide)))
  exact ⟨w₁, buf₁, _, Eval.loop_inr hround, h₁, hu₁, hbuf₁.raw⟩

end

end HttpProxy
