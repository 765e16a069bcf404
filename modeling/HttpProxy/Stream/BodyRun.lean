/-
  HttpProxy.Stream.BodyRun

  The transfer of a body as a relation on the stream alone: `BodyRun data u ret put`
  says that on the stream `u` the transfer returns `ret` after it has relayed `put`,
  as long as it closes neither connection.  `bodyRun_of_evals` and `BodyRun.evals`
  connect it with net_transfer_body_HTTP_1_1 in both directions.
-/

import HttpProxy.Stream.Chunked

namespace HttpProxy

open Lib

-- ============================================================================
-- Runs
-- ============================================================================

/-- The line reader stops although the stream goes on: at a byte it takes for a failed
    read, or at the limit. -/
def LineStuck (n : Nat) (u : Bytes) : Prop :=
  (scanLine n u).1 = .bad ∨ (scanLine n u).1 = .limit

/-- The trailer loop. -/
inductive TrailerRun : Bytes → Int → Bytes → Prop where
  | stuck {u : Bytes} : LineStuck (HTTP_HEADER_MAXLEN - 1) u → TrailerRun u (-1) []
  | last {u rest : Bytes} : scanLine (HTTP_HEADER_MAXLEN - 1) u = (.eol, [], rest) →
      TrailerRun u 0 CRLF
  | next {u line rest : Bytes} {ret : Int} {put : Bytes} :
      scanLine (HTTP_HEADER_MAXLEN - 1) u = (.eol, line, rest) → line ≠ [] →
      TrailerRun rest ret put → TrailerRun u ret (line ++ CRLF ++ put)

/-- The chunk loop, and the trailer loop behind it. -/
inductive ChunksRun : Bytes → Int → Bytes → Prop where
  | stuck {u : Bytes} : LineStuck (HTTP_CHUNK_HEADER_MAXLEN - 1) u → ChunksRun u (-1) []
  | blank {u rest : Bytes} : scanLine (HTTP_CHUNK_HEADER_MAXLEN - 1) u = (.eol, [], rest) →
      ChunksRun u (-1) []
  | last {u line rest : Bytes} {ret : Int} {put : Bytes} :
      scanLine (HTTP_CHUNK_HEADER_MAXLEN - 1) u = (.eol, line, rest) → line ≠ [] →
      announced line = 0 → TrailerRun rest ret put → ChunksRun u ret (line ++ CRLF ++ put)
  | next {u line rest : Bytes} {m : Nat} {ret : Int} {put : Bytes} :
      scanLine (HTTP_CHUNK_HEADER_MAXLEN - 1) u = (.eol, line, rest) → line ≠ [] →
      announced line ≠ 0 → toInt32 (announced line + 2) = m → m ≤ rest.length →
      ChunksRun (rest.drop m) ret put →
      ChunksRun u ret (line ++ CRLF ++ (rest.take m ++ put))

/-- The length a body that is not chunked is copied with. -/
def bodyLength (data : NetData) : Nat :=
  (((netDataGetEnt data (bytesOf "Content-Length")).map atoi).getD 0).toNat

/-- The transfer of the body of the message `data`. -/
inductive BodyRun (data : NetData) (u : Bytes) : Int → Bytes → Prop where
  | head : data.buf.str 0 = bytesOf "HEAD" → BodyRun data u 0 []
  | chunked {ret : Int} {put : Bytes} : data.buf.str 0 ≠ bytesOf "HEAD" →
      netDataGetEnt data (bytesOf "Transfer-Encoding") = some (bytesOf "chunked") →
      ChunksRun u ret put → BodyRun data u ret put
  | length : data.buf.str 0 ≠ bytesOf "HEAD" →
      netDataGetEnt data (bytesOf "Transfer-Encoding") ≠ some (bytesOf "chunked") →
      bodyLength data ≤ u.length → BodyRun data u 0 (u.take (bodyLength data))

-- ============================================================================
-- The rounds of a run
-- ============================================================================

section

variable {w w' : Wire} {src : Role} {buf : Strbuf} {s rest : Bytes} {ret : Int} {n : Nat}

theorem LineRead.stuck {got : Bytes} (h : LineRead src w n got w') (hlive : w'.Live src)
    (hstop : (scanLine n (w.unread src)).1 ≠ .eol) :
    LineStuck n (w.unread src) ∧ Relay src w w' got [] := by
  have hne : (scanLine n (w.unread src)).1 ≠ .eof := fun heof => h.eof heof hlive
  refine ⟨?_, h.relay hne⟩
  cases hx : (scanLine n (w.unread src)).1 with
  | limit => exact .inr hx
  | bad => exact .inl hx
  | eol => exact absurd hx hstop
  | eof => exact absurd hx hne

theorem LineStuck.relay {got : Bytes} (h : LineRead src w n got w')
    (hstuck : LineStuck n (w.unread src)) : Relay src w w' got [] := by
  refine h.relay fun heof => ?_
  rw [LineStuck, heof] at hstuck
  exact absurd hstuck (by decide)

theorem LineStuck.ne_eol {u : Bytes} (h : LineStuck n u) : (scanLine n u).1 ≠ .eol := by
  intro heol
  rw [LineStuck, heol] at h
  exact absurd h (by decide)

theorem Wire.not_takes {k : Nat} (h : ¬ w.Takes src k) : ∃ m, w.room src = some m ∧ m < k := by
  simpa [Wire.Takes] using h

/-- A copy that leaves both connections open has copied all it was asked for. -/
theorem connCopy_open {len : Int} (hok : w.Ok)
    (he : Evals (connCopy src.other src len) w ret w') (hsrc : w'.Live src)
    (hdst : w'.Live src.other) :
    ∃ m : Nat, len = m ∧ ret = 0 ∧ m ≤ (w.unread src).length ∧ w.Takes src.other m ∧
      Relay src w w' ((w.unread src).take m) ((w.unread src).take m) := by
  by_cases hneg : len < 0
  · rcases connCopy_neg src.other hneg hok with hnone | ⟨w₁, he₁, _, hdead, _⟩
    · exact absurd he (hnone ret w')
    · obtain ⟨_, rfl⟩ := he.det he₁
      exact absurd hsrc hdead
  obtain ⟨m, rfl⟩ := Int.eq_ofNat_of_zero_le (Int.not_lt.mp hneg)
  refine ⟨m, rfl, ?_⟩
  by_cases hcond : (w.leftover src).length < m ∨ w.Takes src.other m
  · obtain ⟨ret₁, w₁, he₁, ho⟩ := connCopy_eval m hok hcond
    obtain ⟨rfl, rfl⟩ := he.det he₁
    cases ho with
    | done hr hle ht => exact ⟨rfl, hle, ht, hr⟩
    | ended k _ hdead => exact absurd hsrc hdead
    | broken k hb => exact absurd hb.closed hdst
  · rw [not_or, Nat.not_lt] at hcond
    obtain ⟨k, hroom, hk⟩ := Wire.not_takes hcond.2
    obtain ⟨w₁, he₁, hb, _⟩ := connCopy_lost hok hcond.1 hroom hk
    obtain ⟨_, rfl⟩ := he.det he₁
    exact absurd hb.closed hdst

/-- A copy for which there are enough bytes and enough room. -/
theorem connCopy_takes {m : Nat} (hok : w.Ok) (hlive : w.Live src)
    (hm : m ≤ (w.unread src).length) (htakes : w.Takes src.other m) :
    ∃ w', Evals (connCopy src.other src m) w 0 w' ∧
      Relay src w w' ((w.unread src).take m) ((w.unread src).take m) := by
  obtain ⟨ret, w', he, ho⟩ := connCopy_eval m hok (.inr htakes)
  cases ho with
  | done hr _ _ => exact ⟨w', he, hr⟩
  | ended k _ _ hk _ _ hend =>
      have hlen := hend hlive
      omega
  | broken k _ hroom hk =>
      have hle := htakes k hroom
      omega

-- ============================================================================
-- Trailers
-- ============================================================================

/-- The trailer loop that leaves both connections open. -/
theorem trailerRun_of_evals (hok : w.Ok) (hlive : w.Live src) (hbuf : buf.Raw s)
    (he : Evals (netTransferTrailer src.other src buf) w ret w') (hsrc : w'.Live src)
    (hdst : w'.Live src.other) :
    ∃ got put, TrailerRun (w.unread src) ret put ∧ Relay src w w' got put ∧
      w.Takes src.other put.length := by
  induction hn : (w.unread src).length using Nat.strongRecOn generalizing w buf s with
  | _ n ih =>
    subst hn
    generalize hx : scanLine (HTTP_HEADER_MAXLEN - 1) (w.unread src) = x
    by_cases heol : x.1 = .eol
    · obtain ⟨_, line, rest⟩ := x
      obtain rfl : _ = LineEnd.eol := heol
      by_cases htakes : w.Takes src.other (line ++ CRLF).length
      · obtain ⟨t, w₁, buf₁, _, he₁, h₁, hu₁, hbuf₁⟩ := trailerBody_line hok hlive hbuf hx htakes
        by_cases hnil : line = []
        · subst hnil
          rw [if_pos rfl] at he₁
          obtain ⟨rfl, rfl⟩ := he.det (Eval.loop_inr he₁)
          exact ⟨_, _, .last hx, h₁, htakes⟩
        · rw [if_neg hnil] at he₁
          have hlive₁ : w₁.Live src := h₁.live hlive
          have hlt := scanLine_shorter hx
          rw [← hu₁] at hlt
          obtain ⟨got, put, hrun, h', htakes'⟩ :=
            ih _ hlt (evals_ok he₁ hok) hlive₁ hbuf₁ ((Eval.loop_iff he₁).mp he) rfl
          rw [hu₁] at hrun
          exact ⟨_, _, .next hx hnil hrun, h₁.trans h', h₁.takes_append.mpr ⟨htakes, htakes'⟩⟩
      · obtain ⟨k, hroom, hk⟩ := Wire.not_takes htakes
        obtain ⟨got, w₁, he₁, hb⟩ := trailerBody_lost hok hlive hbuf hx hroom hk
        obtain ⟨_, rfl⟩ := he.det (Eval.loop_inr he₁)
        exact absurd hb.closed hdst
    · rw [← hx] at heol
      obtain ⟨got, w₁, he₁, hread⟩ := trailerBody_stop buf hok hlive heol
      obtain ⟨rfl, rfl⟩ := he.det (Eval.loop_inr he₁)
      obtain ⟨hstuck, hrelay⟩ := hread.stuck hsrc heol
      exact ⟨_, _, .stuck hstuck, hrelay, Wire.takes_zero⟩

theorem TrailerRun.evals {u put : Bytes} (h : TrailerRun u ret put) (hok : w.Ok)
    (hlive : w.Live src) (hbuf : buf.Raw s) (hu : w.unread src = u)
    (htakes : w.Takes src.other put.length) :
    ∃ got w', Evals (netTransferTrailer src.other src buf) w ret w' ∧ Relay src w w' got put := by
  induction h generalizing w buf s with
  | stuck hstuck =>
      subst hu
      obtain ⟨got, w₁, he₁, hread⟩ := trailerBody_stop buf hok hlive hstuck.ne_eol
      exact ⟨got, w₁, Eval.loop_inr he₁, hstuck.relay hread⟩
  | last hx =>
      subst hu
      obtain ⟨t, w₁, buf₁, _, he₁, h₁, _, _⟩ := trailerBody_line hok hlive hbuf hx htakes
      rw [if_pos rfl] at he₁
      exact ⟨_, w₁, Eval.loop_inr he₁, h₁⟩
  | @next u line rest ret put hx hne _ ih =>
      subst hu
      have hline : w.Takes src.other (line ++ CRLF).length :=
        htakes.mono (by simp only [List.length_append]; omega)
      obtain ⟨t, w₁, buf₁, _, he₁, h₁, hu₁, hbuf₁⟩ := trailerBody_line hok hlive hbuf hx hline
      rw [if_neg hne] at he₁
      have hlive₁ : w₁.Live src := h₁.live hlive
      obtain ⟨got, w', he', h'⟩ :=
        ih (evals_ok he₁ hok) hlive₁ hbuf₁ hu₁ (h₁.takes_append.mp htakes).2
      exact ⟨_, w', Eval.loop_inl he₁ he', h₁.trans h'⟩

-- ============================================================================
-- Chunks
-- ============================================================================

theorem Wire.Live.of_evals {α : Type} {p : Io α} {a : α} {r : Role} (h : w'.Live r)
    (he : Evals p w a w') : w.Live r := fun hc => h (evals_closed he hc)

/-- The chunk loop and what `net_transfer_body_HTTP_1_1` does with its result. -/
def chunkedTransfer (dst src : Role) (buf : Strbuf) : Io Int := do
  let (ret, buf) ← netTransferChunks dst src buf
  if ret = 0 then netTransferTrailer dst src buf else return ret

/-- The data of a chunk, when both connections are left open. -/
theorem chunkData_open {line : Bytes} {y : Strbuf ⊕ (Int × Strbuf)} (hok : w.Ok)
    (hbuf : buf.Holds (line ++ CRLF)) (hv : announced line ≠ 0)
    (he : Evals (chunkData src.other src buf) w y w') (hsrc : w'.Live src)
    (hdst : w'.Live src.other) :
    ∃ m : Nat, toInt32 (announced line + 2) = m ∧ y = .inl buf ∧ m ≤ (w.unread src).length ∧
      w.Takes src.other m ∧ Relay src w w' ((w.unread src).take m) ((w.unread src).take m) := by
  rw [chunkData_eq _ _ hbuf, if_neg hv] at he
  obtain ⟨ret, w₁, hcopy, hrest⟩ := he.of_bind
  obtain ⟨m, hm, rfl, hle, htakes, hrelay⟩ :=
    connCopy_open hok hcopy (hsrc.of_evals hrest) (hdst.of_evals hrest)
  rw [if_neg (by simp)] at hrest
  obtain ⟨rfl, rfl⟩ := Eval.of_ret hrest
  exact ⟨m, hm, rfl, hle, htakes, hrelay⟩

/-- A transfer that leaves both connections open. -/
theorem chunksRun_of_evals (hok : w.Ok) (hlive : w.Live src) (hbuf : buf.Raw s)
    (he : Evals (chunkedTransfer src.other src buf) w ret w') (hsrc : w'.Live src)
    (hdst : w'.Live src.other) :
    ∃ got put, ChunksRun (w.unread src) ret put ∧ Relay src w w' got put ∧
      w.Takes src.other put.length := by
  obtain ⟨⟨ret₁, buf₁⟩, w₁, hloop, hafter⟩ := he.of_bind
  have hrest : Evals (if ret₁ = 0 then netTransferTrailer src.other src buf₁ else pure ret₁)
      w₁ ret w' := hafter
  clear he hafter
  have hsrc₁ := hsrc.of_evals hrest
  have hdst₁ := hdst.of_evals hrest
  induction hn : (w.unread src).length using Nat.strongRecOn generalizing w buf s with
  | _ n ih =>
    subst hn
    generalize hx : scanLine (HTTP_CHUNK_HEADER_MAXLEN - 1) (w.unread src) = x
    by_cases hstop : x.1 = .eol → x.2.1 = []
    · rw [← hx] at hstop
      obtain ⟨got, w₂, buf₂, he₂, hread⟩ := chunkBody_stop buf hok hlive hstop
      obtain ⟨heq, rfl⟩ := hloop.det (Eval.loop_inr he₂)
      obtain ⟨rfl, rfl⟩ := Prod.mk.inj heq
      rw [if_neg (by decide)] at hrest
      obtain ⟨rfl, rfl⟩ := Eval.of_ret hrest
      by_cases heol : (scanLine (HTTP_CHUNK_HEADER_MAXLEN - 1) (w.unread src)).1 = .eol
      · obtain ⟨e, line, rest⟩ := x
        rw [hx] at heol hstop
        obtain rfl : e = .eol := heol
        obtain rfl : line = [] := hstop rfl
        exact ⟨_, _, .blank hx, hread.relay_eol hx, Wire.takes_zero⟩
      · obtain ⟨hstuck, hrelay⟩ := hread.stuck hsrc heol
        exact ⟨_, _, .stuck hstuck, hrelay, Wire.takes_zero⟩
    rw [Classical.not_imp] at hstop
    obtain ⟨e, line, rest⟩ := x
    obtain ⟨rfl, hne⟩ := hstop
    by_cases htakes : w.Takes src.other (line ++ CRLF).length
    · obtain ⟨t, w₂, buf₂, _, hok₂, h₂, hu₂, hbuf₂, hgo⟩ :=
        chunkBody_line hok hlive hbuf hx hne htakes
      have hlive₂ : w₂.Live src := h₂.live hlive
      by_cases hzero : announced line = 0
      · have hround := (hgo _ _).mpr (chunkData_zero hbuf₂ hzero)
        obtain ⟨heq, rfl⟩ := hloop.det (Eval.loop_inr hround)
        obtain ⟨rfl, rfl⟩ := Prod.mk.inj heq
        rw [if_pos rfl] at hrest
        obtain ⟨got, put, hrun, h', htakes'⟩ :=
          trailerRun_of_evals hok₂ hlive₂ hbuf₂.raw hrest hsrc hdst
        rw [hu₂] at hrun
        exact ⟨_, _, .last hx hne hzero hrun, h₂.trans h', h₂.takes_append.mpr ⟨htakes, htakes'⟩⟩
      rcases Eval.of_loop hloop with hout | ⟨buf₃, w₃, hround, hnext⟩
      · obtain ⟨m, _, hy, _⟩ :=
          chunkData_open hok₂ hbuf₂ hzero ((hgo _ _).mp hout) hsrc₁ hdst₁
        exact absurd hy (by simp)
      · obtain ⟨m, hm, hy, hle, hcopied, h₃⟩ := chunkData_open hok₂ hbuf₂ hzero
          ((hgo _ _).mp hround) (hsrc₁.of_evals hnext) (hdst₁.of_evals hnext)
        obtain rfl := Sum.inl.inj hy
        have hlive₃ := hsrc₁.of_evals hnext
        rw [hu₂] at hle h₃
        have hu₃ : w₃.unread src = rest.drop m :=
          h₃.unread_rest (hu₂.trans (List.take_append_drop m rest).symm)
        have hlt := scanLine_shorter hx
        have hlt₃ : (w₃.unread src).length < (w.unread src).length := by
          rw [hu₃, List.length_drop]
          omega
        obtain ⟨got, put, hrun, h', htakes'⟩ :=
          ih _ hlt₃ (evals_ok hround hok) hlive₃ hbuf₂.raw hnext rfl
        rw [hu₃] at hrun
        have hlen : (rest.take m).length = m := List.length_take_of_le hle
        refine ⟨_, _, .next hx hne hzero hm hle hrun, h₂.trans (h₃.trans h'),
          h₂.takes_append.mpr ⟨htakes, h₃.takes_append.mpr ⟨?_, htakes'⟩⟩⟩
        rw [hlen]
        exact hcopied
    · obtain ⟨k, hroom, hk⟩ := Wire.not_takes htakes
      obtain ⟨got, w₂, buf₂, he₂, hb⟩ := chunkBody_lost hok hlive hbuf hx hne hroom hk
      obtain ⟨_, rfl⟩ := hloop.det (Eval.loop_inr he₂)
      exact absurd hb.closed hdst₁

theorem ChunksRun.evals {u put : Bytes} (h : ChunksRun u ret put) (hok : w.Ok)
    (hlive : w.Live src) (hbuf : buf.Raw s) (hu : w.unread src = u)
    (htakes : w.Takes src.other put.length) :
    ∃ got w', Evals (chunkedTransfer src.other src buf) w ret w' ∧ Relay src w w' got put := by
  induction h generalizing w buf s with
  | @stuck u hstuck =>
      subst hu
      obtain ⟨got, w₁, buf₁, he₁, hread⟩ :=
        chunkBody_stop buf hok hlive fun heol => absurd heol hstuck.ne_eol
      exact ⟨got, w₁, (Eval.loop_inr he₁).bind (by simp), hstuck.relay hread⟩
  | blank hx =>
      subst hu
      obtain ⟨got, w₁, buf₁, he₁, hread⟩ :=
        chunkBody_stop buf hok hlive fun _ => by rw [hx]
      exact ⟨got, w₁, (Eval.loop_inr he₁).bind (by simp), hread.relay_eol hx⟩
  | @last u line rest ret put hx hne hzero hrun =>
      subst hu
      have hline : w.Takes src.other (line ++ CRLF).length :=
        htakes.mono (by simp only [List.length_append]; omega)
      obtain ⟨t, w₁, buf₁, _, hok₁, h₁, hu₁, hbuf₁, hgo⟩ :=
        chunkBody_line hok hlive hbuf hx hne hline
      have hlive₁ : w₁.Live src := h₁.live hlive
      obtain ⟨got, w', he', h'⟩ :=
        hrun.evals hok₁ hlive₁ hbuf₁.raw hu₁ (h₁.takes_append.mp htakes).2
      have hround := (hgo _ _).mpr (chunkData_zero hbuf₁ hzero)
      exact ⟨_, w', (Eval.loop_inr hround).bind he', h₁.trans h'⟩
  | @next u line rest m ret put hx hne hzero hm hle hrun ih =>
      subst hu
      have hline : w.Takes src.other (line ++ CRLF).length :=
        htakes.mono (by simp only [List.length_append]; omega)
      obtain ⟨t, w₁, buf₁, _, hok₁, h₁, hu₁, hbuf₁, hgo⟩ :=
        chunkBody_line hok hlive hbuf hx hne hline
      have hlive₁ : w₁.Live src := h₁.live hlive
      have hlen : (rest.take m).length = m := List.length_take_of_le hle
      have htakes₁ := (h₁.takes_append.mp htakes).2
      obtain ⟨w₂, he₂, h₂⟩ := connCopy_takes (m := m) hok₁ hlive₁ (by rw [hu₁]; exact hle)
        (htakes₁.mono (by rw [List.length_append]; omega))
      rw [hu₁] at h₂
      have hu₂ : w₂.unread src = rest.drop m :=
        h₂.unread_rest (hu₁.trans (List.take_append_drop m rest).symm)
      have hlive₂ : w₂.Live src := h₂.live hlive₁
      have hround := chunkData_copy hbuf₁ hzero hm he₂
      rw [if_neg (by simp)] at hround
      obtain ⟨got, w', he', h'⟩ :=
        ih (evals_ok he₂ hok₁) hlive₂ hbuf₁.raw hu₂ (h₂.takes_append.mp htakes₁).2
      obtain ⟨⟨ret₁, buf'⟩, w₃, hloop, hrest⟩ := he'.of_bind
      exact ⟨_, w', (Eval.loop_inl ((hgo _ _).mpr hround) hloop).bind hrest,
        h₁.trans (h₂.trans h')⟩

-- ============================================================================
-- Bodies
-- ============================================================================

variable {data : NetData}

theorem netTransferBody_chunked (dst src : Role) (hhead : data.buf.str 0 ≠ bytesOf "HEAD")
    (henc : netDataGetEnt data (bytesOf "Transfer-Encoding") = some (bytesOf "chunked")) :
    netTransferBody dst src data = chunkedTransfer dst src strbufInit := by
  rw [netTransferBody, if_neg hhead, if_pos henc]
  rfl

theorem netTransferBody_plain (dst src : Role) (hhead : data.buf.str 0 ≠ bytesOf "HEAD")
    (henc : netDataGetEnt data (bytesOf "Transfer-Encoding") ≠ some (bytesOf "chunked")) :
    netTransferBody dst src data =
      if bodyLength data = 0 then pure 0 else connCopy dst src (bodyLength data : Nat) := by
  rw [netTransferBody, if_neg hhead, if_neg henc]
  exact ite_toNat _ _ _

/-- A transfer that leaves both connections open. -/
theorem bodyRun_of_evals (hok : w.Ok) (hlive : w.Live src)
    (he : Evals (netTransferBody src.other src data) w ret w') (hsrc : w'.Live src)
    (hdst : w'.Live src.other) :
    ∃ got put, BodyRun data (w.unread src) ret put ∧ Relay src w w' got put ∧
      w.Takes src.other put.length := by
  by_cases hhead : data.buf.str 0 = bytesOf "HEAD"
  · rw [netTransferBody, if_pos hhead] at he
    obtain ⟨rfl, rfl⟩ := Eval.of_ret he
    exact ⟨_, _, .head hhead, .refl src w', Wire.takes_zero⟩
  by_cases henc : netDataGetEnt data (bytesOf "Transfer-Encoding") = some (bytesOf "chunked")
  · rw [netTransferBody_chunked _ _ hhead henc] at he
    obtain ⟨got, put, hrun, h⟩ :=
      chunksRun_of_evals hok hlive strbufInit_holds.raw he hsrc hdst
    exact ⟨got, put, .chunked hhead henc hrun, h⟩
  · rw [netTransferBody_plain _ _ hhead henc] at he
    have hrun := BodyRun.length (u := w.unread src) hhead henc
    split at he
    · rename_i hzero
      obtain ⟨rfl, rfl⟩ := Eval.of_ret he
      rw [hzero] at hrun
      exact ⟨_, _, hrun (Nat.zero_le _), .refl src w', Wire.takes_zero⟩
    · obtain ⟨m, hm, rfl, hle, htakes, h⟩ := connCopy_open hok he hsrc hdst
      obtain rfl := Int.ofNat.inj hm
      refine ⟨_, _, hrun hle, h, ?_⟩
      rw [List.length_take_of_le hle]
      exact htakes

theorem BodyRun.evals {put : Bytes} (h : BodyRun data (w.unread src) ret put) (hok : w.Ok)
    (hlive : w.Live src) (htakes : w.Takes src.other put.length) :
    ∃ got w', Evals (netTransferBody src.other src data) w ret w' ∧ Relay src w w' got put := by
  cases h with
  | head hhead =>
      rw [netTransferBody, if_pos hhead]
      exact ⟨[], w, .ret 0 w, .refl src w⟩
  | chunked hhead henc hrun =>
      rw [netTransferBody_chunked _ _ hhead henc]
      exact hrun.evals hok hlive strbufInit_holds.raw rfl htakes
  | length hhead henc hle =>
      rw [netTransferBody_plain _ _ hhead henc]
      rw [List.length_take_of_le hle] at htakes
      split
      · rename_i hzero
        rw [hzero]
        exact ⟨[], w, .ret 0 w, .refl src w⟩
      · obtain ⟨w', he, h⟩ := connCopy_takes hok hlive hle htakes
        exact ⟨_, w', he, h⟩

end

end HttpProxy
