/-
  HttpProxy.Stream.HeadRun

  Fetching a head as a relation on the stream: `HeadRead heap u data rest` says that
  net_fetch_http returns 0 on the stream `u`, with the header table and buffer
  `data`, and leaves `rest`; `heap` is what the memory of the entries holds.
-/

import HttpProxy.Stream.Line
import HttpProxy.Core.NetHttp

namespace HttpProxy

open Lib

-- ============================================================================
-- Heads
-- ============================================================================

/-- How many bytes `conn_gets` may still put into the buffer of a head. -/
def headRoom (data : NetData) : Nat := HTTP_HEADER_MAXLEN - (data.buf.len + 1)

/-- The data after a line and its NUL. -/
def NetData.addLine (data : NetData) (line : Bytes) : NetData :=
  { data with buf := strbufAppend (strbufCat data.buf line) 0 }

/-- The header lines up to the blank line. -/
inductive HeadersRead : NetData → Bytes → NetData → Bytes → Prop where
  | last {data : NetData} {u rest : Bytes} :
      scanLine (headRoom data) u = (.eol, [], rest) → HeadersRead data u data rest
  | next {data data₁ data' : NetData} {u line rest rest' : Bytes} :
      scanLine (headRoom data) u = (.eol, line, rest) → line ≠ [] →
      netParseHeader (data.addLine line) data.buf.len = (data₁, 0) →
      HeadersRead data₁ rest data' rest' → HeadersRead data u data' rest'

/-- A whole head; an empty start line is all there is of it. -/
inductive HeadRead (heap : Nat → Bytes) : Bytes → NetData → Bytes → Prop where
  | empty {u rest : Bytes} :
      scanLine (headRoom (netDataInit heap)) u = (.eol, [], rest) →
      HeadRead heap u (netDataInit heap) rest
  | lines {u line rest rest' : Bytes} {data : NetData} :
      scanLine (headRoom (netDataInit heap)) u = (.eol, line, rest) → line ≠ [] →
      HeadersRead ((netDataInit heap).addLine line) rest data rest' → HeadRead heap u data rest'

/-- `net_parse_header` changes no length. -/
theorem netParseHeader_len (data : NetData) (offset : Nat) :
    (netParseHeader data offset).1.buf.len = data.buf.len := by
  unfold netParseHeader
  split <;> rfl

theorem addLine_len (data : NetData) (line : Bytes) :
    (data.addLine line).buf.len = data.buf.len + line.length + 1 := by
  rw [NetData.addLine, strbufAppend_len, strbufCat_len]

/-- A line that was read fits, and leaves room for its NUL. -/
theorem addLine_fits {data : NetData} {u line rest : Bytes}
    (h : scanLine (headRoom data) u = (.eol, line, rest)) :
    (data.addLine line).buf.len + 1 ≤ HTTP_HEADER_MAXLEN := by
  have hlt := scanLine_length.2.2.2 (show (scanLine (headRoom data) u).1 = .eol by rw [h])
  rw [h, headRoom] at hlt
  rw [addLine_len]
  have hline : line.length < HTTP_HEADER_MAXLEN - (data.buf.len + 1) := hlt
  omega

-- ============================================================================
-- net_fetch_headers
-- ============================================================================

/-- The body of the loop of `net_fetch_headers`. -/
def netFetchHeadersBody (conn : Role) (data : NetData) : Io (NetData ⊕ (Int × NetData)) := do
  let p0 := data.buf.len
  let (ret, buf) ← connGets conn HTTP_HEADER_MAXLEN data.buf
  if ret ≤ 0 then return .inr (ret, { data with buf })
  else do
    let (data, ret) := netParseHeader { data with buf := strbufAppend buf 0 } p0
    if ret ≠ 0 then return .inr (-1, data) else return .inl data

section

variable {w w' : Wire} {r : Role} {data data' : NetData} {u rest : Bytes} {heap : Nat → Bytes}

/-- Reading one line of a head. -/
theorem headLine_eval (data : NetData) (hok : w.Ok) (hlive : w.Live r)
    (hfits : data.buf.len + 1 ≤ HTTP_HEADER_MAXLEN) :
    ∃ got w₁, Evals (connGets r HTTP_HEADER_MAXLEN data.buf) w
        (lineRet (scanLine (headRoom data) (w.unread r)),
          strbufCat data.buf (scanLine (headRoom data) (w.unread r)).2.1) w₁ ∧
      LineRead r w (headRoom data) got w₁ :=
  connGets_eval hok (.inl hlive) (.inl (by rw [headRoom]; omega))

/-- A round of `net_fetch_headers`. -/
theorem netFetchHeadersBody_eval (data : NetData) (hok : w.Ok) (hlive : w.Live r)
    (hfits : data.buf.len + 1 ≤ HTTP_HEADER_MAXLEN) :
    (∃ got rest w₁, scanLine (headRoom data) (w.unread r) = (.eol, [], rest) ∧
        Evals (netFetchHeadersBody r data) w (.inr (0, data)) w₁ ∧ Relay r w w₁ got [] ∧
        w₁.unread r = rest) ∨
      (∃ got line rest data₁ w₁, scanLine (headRoom data) (w.unread r) = (.eol, line, rest) ∧
        line ≠ [] ∧ netParseHeader (data.addLine line) data.buf.len = (data₁, 0) ∧
        Evals (netFetchHeadersBody r data) w (.inl data₁) w₁ ∧ Relay r w w₁ got [] ∧
        w₁.unread r = rest) ∨
      ∃ got data₁ w₁, Evals (netFetchHeadersBody r data) w (.inr (-1, data₁)) w₁ ∧
        Moved r w w₁ got [] ∧
        ∀ line rest, scanLine (headRoom data) (w.unread r) = (.eol, line, rest) → line ≠ [] ∧
          ∀ data₁, netParseHeader (data.addLine line) data.buf.len ≠ (data₁, 0) := by
  obtain ⟨got, w₁, he, hread⟩ := headLine_eval data hok hlive hfits
  generalize hx : scanLine (headRoom data) (w.unread r) = x at he
  obtain ⟨e, line, rest⟩ := x
  by_cases heol : e = .eol
  · subst heol
    have hrelay := hread.relay_eol hx
    have hu₁ : w₁.unread r = rest := by rw [hread.unread, hx]
    rw [lineRet, if_pos rfl] at he
    by_cases hnil : line = []
    · subst hnil
      exact .inl ⟨got, rest, w₁, rfl, he.bind (by simp), hrelay, hu₁⟩
    have hpos : ¬ (line.length : Int) ≤ 0 := by
      have hlen := List.length_pos_iff.mpr hnil
      omega
    generalize hparse : netParseHeader (data.addLine line) data.buf.len = p
    obtain ⟨data₁, ret⟩ := p
    have hbody (y : NetData ⊕ (Int × NetData))
        (hy : (if ret ≠ 0 then .inr (-1, data₁) else .inl data₁) = y) :
        Evals (netFetchHeadersBody r data) w y w₁ := by
      refine he.bind ?_
      simp only [hpos, if_false]
      rw [NetData.addLine] at hparse
      rw [hparse, ← hy]
      split <;> simp
    by_cases hret : ret = 0
    · subst hret
      exact .inr (.inl ⟨got, line, rest, data₁, w₁, rfl, hnil, hparse,
        hbody _ (if_neg (by simp)), hrelay, hu₁⟩)
    · refine .inr (.inr ⟨got, data₁, w₁, hbody _ (if_pos hret), hread.moved, ?_⟩)
      rintro _ _ ⟨⟩
      refine ⟨hnil, fun data₂ hzero => hret ?_⟩
      exact (Prod.mk.inj (hparse.symm.trans hzero)).2
  · rw [lineRet, if_neg heol] at he
    refine .inr (.inr ⟨got, { data with buf := strbufCat data.buf line }, w₁, he.bind (by simp),
      hread.moved, ?_⟩)
    rintro _ _ ⟨⟩
    exact absurd rfl heol

/-- `net_fetch_headers` returns; when it returns 0 it has read the header lines. -/
theorem netFetchHeaders_eval (data : NetData) (hok : w.Ok) (hlive : w.Live r)
    (hfits : data.buf.len + 1 ≤ HTTP_HEADER_MAXLEN) :
    ∃ got ret data' w', Evals (netFetchHeaders r data) w (ret, data') w' ∧ Moved r w w' got [] ∧
      (ret = 0 → HeadersRead data (w.unread r) data' (w'.unread r) ∧ Relay r w w' got []) := by
  induction hn : (w.unread r).length using Nat.strongRecOn generalizing w data with
  | _ n ih =>
    subst hn
    rcases netFetchHeadersBody_eval data hok hlive hfits with
      ⟨got, rest, w₁, hx, he, hrelay, hu₁⟩ |
        ⟨got, line, rest, data₁, w₁, hx, hnil, hparse, he, hrelay, hu₁⟩ |
        ⟨got, data₁, w₁, he, hmoved, _⟩
    · refine ⟨got, 0, data, w₁, Eval.loop_inr he, hrelay.toMoved, fun _ => ⟨?_, hrelay⟩⟩
      rw [hu₁]
      exact .last hx
    · have hlive₁ : w₁.Live r := hrelay.live hlive
      have hlen₁ := netParseHeader_len (data.addLine line) data.buf.len
      rw [hparse] at hlen₁
      have hfits₁ : data₁.buf.len + 1 ≤ HTTP_HEADER_MAXLEN := hlen₁ ▸ addLine_fits hx
      have hlt := scanLine_shorter hx
      rw [← hu₁] at hlt
      obtain ⟨got', ret, data', w', he', hmoved, hzero⟩ :=
        ih _ hlt data₁ (evals_ok he hok) hlive₁ hfits₁ rfl
      refine ⟨_, ret, data', w', Eval.loop_inl he he', hrelay.toMoved.trans hmoved, fun hret => ?_⟩
      obtain ⟨hread, hrelay'⟩ := hzero hret
      rw [hu₁] at hread
      exact ⟨.next hx hnil hparse hread, hrelay.trans hrelay'⟩
    · exact ⟨got, -1, data₁, w₁, Eval.loop_inr he, hmoved, fun h => absurd h (by decide)⟩

theorem HeadersRead.evals (h : HeadersRead data u data' rest) (hok : w.Ok) (hlive : w.Live r)
    (hfits : data.buf.len + 1 ≤ HTTP_HEADER_MAXLEN) (hu : w.unread r = u) :
    ∃ got w', Evals (netFetchHeaders r data) w (0, data') w' ∧ Relay r w w' got [] ∧
      w'.unread r = rest := by
  induction h generalizing w with
  | @last data u rest hx =>
      subst hu
      rcases netFetchHeadersBody_eval data hok hlive hfits with
        ⟨got, rest', w₁, hx', he, hrelay, hu₁⟩ | ⟨_, _, _, _, _, hx', hnil, _⟩ |
          ⟨_, _, _, _, _, hnot⟩
      · obtain rfl : rest' = rest := by
          rw [hx] at hx'
          exact ((Prod.mk.inj (Prod.mk.inj hx').2).2).symm
        exact ⟨got, w₁, Eval.loop_inr he, hrelay, hu₁⟩
      · rw [hx] at hx'
        exact absurd (Prod.mk.inj (Prod.mk.inj hx').2).1.symm hnil
      · exact absurd rfl (hnot _ _ hx).1
  | @next data data₁ data' u line rest rest' hx hne hparse _ ih =>
      subst hu
      rcases netFetchHeadersBody_eval data hok hlive hfits with
        ⟨_, _, _, hx', _⟩ | ⟨got, line', rest₁, data₂, w₁, hx', _, hparse', he, hrelay, hu₁⟩ |
          ⟨_, _, _, _, _, hnot⟩
      · rw [hx] at hx'
        exact absurd (Prod.mk.inj (Prod.mk.inj hx').2).1 hne
      · rw [hx] at hx'
        obtain ⟨rfl, rfl⟩ := Prod.mk.inj (Prod.mk.inj hx').2
        rw [hparse] at hparse'
        obtain ⟨rfl, _⟩ := Prod.mk.inj hparse'
        have hlive₁ : w₁.Live r := hrelay.live hlive
        have hlen₁ := netParseHeader_len (data.addLine line) data.buf.len
        rw [hparse] at hlen₁
        obtain ⟨got', w', he', hrelay', hu'⟩ :=
          ih (evals_ok he hok) hlive₁ (hlen₁ ▸ addLine_fits hx) hu₁
        exact ⟨_, w', Eval.loop_inl he he', hrelay.trans hrelay', hu'⟩
      · exact absurd hparse ((hnot _ _ hx).2 _)

-- ============================================================================
-- net_fetch_http
-- ============================================================================

theorem netDataInit_fits (heap : Nat → Bytes) :
    (netDataInit heap).buf.len + 1 ≤ HTTP_HEADER_MAXLEN := by
  show strbufInit.len + 1 ≤ _
  decide

theorem netFetchHttp_line {line : Bytes} (hok : w.Ok) (hlive : w.Live r) (hne : line ≠ [])
    (hx : scanLine (headRoom (netDataInit heap)) (w.unread r) = (.eol, line, rest)) :
    ∃ got w₁, w₁.Ok ∧ Relay r w w₁ got [] ∧ w₁.unread r = rest ∧ ∀ y w',
      Evals (netFetchHeaders r ((netDataInit heap).addLine line)) w₁ y w' →
        Evals (netFetchHttp r (netDataInit heap)) w y w' := by
  obtain ⟨got, w₁, he, hread⟩ :=
    headLine_eval (netDataInit heap) hok hlive (netDataInit_fits heap)
  have hrelay := hread.relay_eol hx
  have hu₁ : w₁.unread r = rest := by rw [hread.unread, hx]
  rw [hx, lineRet, if_pos rfl] at he
  refine ⟨got, w₁, evals_ok he hok, hrelay, hu₁, fun y w' h => he.bind ?_⟩
  have hpos : ¬ (line.length : Int) ≤ 0 := by
    have hlen := List.length_pos_iff.mpr hne
    omega
  simp only [hpos, if_false]
  exact h

/-- `net_fetch_http` returns; when it returns 0 it has read a head. -/
theorem netFetchHttp_eval (heap : Nat → Bytes) (hok : w.Ok) (hlive : w.Live r) :
    ∃ got ret data w', Evals (netFetchHttp r (netDataInit heap)) w (ret, data) w' ∧
      Moved r w w' got [] ∧
      (ret = 0 → HeadRead heap (w.unread r) data (w'.unread r) ∧ Relay r w w' got []) := by
  generalize hx : scanLine (headRoom (netDataInit heap)) (w.unread r) = x
  by_cases hstop : x.1 = .eol → x.2.1 = []
  · obtain ⟨got, w₁, he, hread⟩ :=
      headLine_eval (netDataInit heap) hok hlive (netDataInit_fits heap)
    rw [hx] at he
    have hret : lineRet x ≤ 0 := by
      rw [lineRet]
      split
      · rename_i heol
        rw [hstop heol]
        decide
      · decide
    refine ⟨got, lineRet x,
      { netDataInit heap with buf := strbufCat (netDataInit heap).buf x.2.1 }, w₁,
      he.bind (by simp [hret]), hread.moved, fun hzero => ?_⟩
    obtain ⟨e, line, rest⟩ := x
    by_cases heol : e = .eol
    · subst heol
      obtain rfl : line = [] := hstop rfl
      rw [hread.unread, hx]
      exact ⟨.empty hx, hread.relay_eol hx⟩
    · rw [lineRet, if_neg heol] at hzero
      exact absurd hzero (by decide)
  · rw [Classical.not_imp] at hstop
    obtain ⟨e, line, rest⟩ := x
    obtain ⟨rfl, hne⟩ := hstop
    obtain ⟨got, w₁, hok₁, hrelay, hu₁, hgo⟩ := netFetchHttp_line hok hlive hne hx
    have hlive₁ : w₁.Live r := hrelay.live hlive
    obtain ⟨got', ret, data, w', he', hmoved, hzero⟩ :=
      netFetchHeaders_eval ((netDataInit heap).addLine line) hok₁ hlive₁ (addLine_fits hx)
    refine ⟨_, ret, data, w', hgo _ _ he', hrelay.toMoved.trans hmoved, fun hret => ?_⟩
    obtain ⟨hread, hrelay'⟩ := hzero hret
    rw [hu₁] at hread
    exact ⟨.lines hx hne hread, hrelay.trans hrelay'⟩

theorem HeadRead.evals (h : HeadRead heap (w.unread r) data rest) (hok : w.Ok) (hlive : w.Live r) :
    ∃ got w', Evals (netFetchHttp r (netDataInit heap)) w (0, data) w' ∧ Relay r w w' got [] ∧
      w'.unread r = rest := by
  cases h with
  | empty hx =>
      obtain ⟨got, w₁, he, hread⟩ :=
        headLine_eval (netDataInit heap) hok hlive (netDataInit_fits heap)
      have hu₁ : w₁.unread r = rest := by rw [hread.unread, hx]
      rw [hx, lineRet, if_pos rfl] at he
      exact ⟨got, w₁, he.bind (by simp), hread.relay_eol hx, hu₁⟩
  | lines hx hne hread =>
      obtain ⟨got, w₁, hok₁, hrelay, hu₁, hgo⟩ := netFetchHttp_line hok hlive hne hx
      have hlive₁ : w₁.Live r := hrelay.live hlive
      obtain ⟨got', w', he', hrelay', hu'⟩ := hread.evals hok₁ hlive₁ (addLine_fits hx) hu₁
      exact ⟨_, w', hgo _ _ he', hrelay.trans hrelay', hu'⟩

end

end HttpProxy
