/-
  HttpProxy.Stream.PassThrough

  A response head goes through the proxy unchanged: `rspHead_passThrough`.  The
  status line is cut up by NULs and put together again from three numbers and an
  offset; the fields come back from the header table in their order.
-/

import HttpProxy.Stream.Fields
import HttpProxy.Stream.BadSize

namespace HttpProxy

open Lib

-- ============================================================================
-- net_parse_rsp
-- ============================================================================

/-- The status line in the buffer behind `net_parse_rsp`. -/
def cutStatusLine (a b c reason : Bytes) : Bytes :=
  bytesOf "HTTP/" ++ (a ++ ([0] ++ (b ++ ([0] ++ (c ++ ([0] ++ reason))))))

theorem cutStatusLine_length (a b c reason : Bytes) :
    (cutStatusLine a b c reason).length = (statusLine a b c reason).length := by
  simp only [cutStatusLine, statusLine, List.length_append, List.length_cons]

theorem digits_nul {ds : Bytes} (h : Digits ds) : 0 ∉ ds := fun hmem =>
  absurd (h.2 0 hmem) (by decide)

theorem digits_plain {ds : Bytes} (h : Digits ds) : Plain ds := by
  intro b hb
  rw [plainChar_iff]
  have hdigit := h.2 b hb
  refine ⟨?_, ?_, ?_, ?_⟩ <;> rintro rfl <;> exact absurd hdigit (by decide)

theorem statusLine_plain {a b c reason : Bytes} (ha : Digits a) (hb : Digits b) (hc : Digits c)
    (hreason : Plain reason) : Plain (statusLine a b c reason) := by
  have hhttp : Plain (bytesOf "HTTP/") := by decide
  have hdot : Plain [46] := by decide
  have hspace : Plain [32] := by decide
  simp only [statusLine, plain_append]
  exact ⟨hhttp, digits_plain ha, hdot, digits_plain hb, hspace, digits_plain hc, hspace, hreason⟩

/-- `net_parse_rsp` on a status line. -/
theorem netParseRsp_statusLine {data : NetData} {a b c reason extra : Bytes} {fs : List Field}
    (h : data.HoldsHead (statusLine a b c reason) fs extra) (ha : Digits a) (hb : Digits b)
    (hc : Digits c) (hne : reason ≠ []) (hreason : Plain reason) :
    ∃ rsp : NetRsp,
      netParseRsp { data, code := 0, verMajor := 0, verMinor := 0, httpMsg := 0 } = (rsp, 0) ∧
      rsp.data.HoldsHead (cutStatusLine a b c reason) fs extra ∧ rsp.verMajor = atoi a ∧
      rsp.verMinor = atoi b ∧ rsp.code = atoi c ∧ rsp.data.buf.str rsp.httpMsg = reason := by
  have hstr : data.buf.str 0 = statusLine a b c reason :=
    h.buf.str_at (s := []) rfl (statusLine_plain ha hb hc hreason).nul
  have hexec := rspPatt_exec ha hb hc hne hreason.nul
  have h₀ := h.buf
  generalize hrest : 0 :: (cells fs ++ extra) = rest at h₀
  rw [statusLine] at h₀
  have hfive : (bytesOf "HTTP/").length = 5 := rfl
  generalize hhttp : bytesOf "HTTP/" = http at h₀ hfive
  -- a NUL behind the major version, behind the minor version and behind the code
  have h₁ : (data.buf.set (5 + a.length) 0).Holds
      ((http ++ a) ++ 0 :: (b ++ ([32] ++ (c ++ ([32] ++ (reason ++ rest)))))) := by
    refine Strbuf.Holds.set (c := 46) ?_ (by rw [List.length_append, hfive])
    simpa using h₀
  have h₂ : ((data.buf.set (5 + a.length) 0).set (5 + a.length + 1 + b.length) 0).Holds
      ((http ++ (a ++ ([0] ++ b))) ++ 0 :: (c ++ ([32] ++ (reason ++ rest)))) := by
    refine Strbuf.Holds.set (c := 32) ?_ (by
      simp only [List.length_append, hfive, List.length_singleton]
      omega)
    simpa using h₁
  have h₃ : (((data.buf.set (5 + a.length) 0).set (5 + a.length + 1 + b.length) 0).set
      (5 + a.length + 1 + b.length + 1 + c.length) 0).Holds
      ((http ++ (a ++ ([0] ++ (b ++ ([0] ++ c))))) ++ 0 :: (reason ++ rest)) := by
    refine Strbuf.Holds.set (c := 32) ?_ (by
      simp only [List.length_append, hfive, List.length_singleton]
      omega)
    simpa using h₂
  generalize hbuf : ((data.buf.set (5 + a.length) 0).set (5 + a.length + 1 + b.length) 0).set
    (5 + a.length + 1 + b.length + 1 + c.length) 0 = buf at h₃
  have hmajor : buf.str 5 = a := by
    refine Strbuf.Holds.str_at (s := http) (r := b ++ 0 :: (c ++ 0 :: (reason ++ rest))) ?_
      hfive.symm (digits_nul ha)
    simpa using h₃
  have hminor : buf.str (5 + a.length + 1) = b := by
    refine Strbuf.Holds.str_at (s := http ++ (a ++ [0])) (r := c ++ 0 :: (reason ++ rest)) ?_
      (by
      simp only [List.length_append, hfive, List.length_singleton]
      omega) (digits_nul hb)
    simpa using h₃
  have hcode : buf.str (5 + a.length + 1 + b.length + 1) = c := by
    refine Strbuf.Holds.str_at (s := http ++ (a ++ ([0] ++ (b ++ [0])))) (r := reason ++ rest) ?_
      (by
      simp only [List.length_append, hfive, List.length_singleton]
      omega) (digits_nul hc)
    simpa using h₃
  have hmsg : buf.str (5 + a.length + 1 + b.length + 1 + c.length + 1) = reason := by
    refine Strbuf.Holds.str_at (s := http ++ (a ++ ([0] ++ (b ++ ([0] ++ (c ++ [0]))))))
      (r := cells fs ++ extra) ?_
      (by
      simp only [List.length_append, hfive, List.length_singleton]
      omega) hreason.nul
    rw [hrest]
    simpa using h₃
  subst hbuf
  rw [netParseRsp, hstr, hexec]
  refine ⟨_, rfl, ⟨?_, ?_⟩, congrArg atoi hmajor, congrArg atoi hminor, congrArg atoi hcode, hmsg⟩
  · rw [hrest, cutStatusLine, hhttp]
    have hall : (http ++ (a ++ ([0] ++ (b ++ ([0] ++ c))))) ++ 0 :: (reason ++ rest) =
        http ++ (a ++ ([0] ++ (b ++ ([0] ++ (c ++ ([0] ++ reason)))))) ++ rest := by
      simp
    rw [← hall]
    exact h₃
  · rw [cutStatusLine_length]
    exact h.table

-- ============================================================================
-- Response heads
-- ============================================================================

/-- A response head as the proxy would write it: numbers that fit an `int` without
    leading zeros, and one blank behind each colon. -/
structure ResponseHead where
  major : Bytes
  minor : Bytes
  code : Bytes
  reason : Bytes
  fields : List Field
  majorNum : Canonical major ∧ digitsVal 10 major < 2 ^ 31
  minorNum : Canonical minor ∧ digitsVal 10 minor < 2 ^ 31
  codeNum : Canonical code ∧ digitsVal 10 code < 2 ^ 31
  reasonNe : reason ≠ []
  reasonPlain : Plain reason
  blanks : ∀ f ∈ fields, f.blanks = 1

/-- The bytes of the head. -/
def ResponseHead.text (h : ResponseHead) : Bytes :=
  headText (statusLine h.major h.minor h.code h.reason) h.fields

section

variable {src : Role} {w : Wire} {rest : Bytes}

/-- The fields are written as they were read. -/
theorem fieldText_oneBlank {fs : List Field} (h : ∀ f ∈ fs, f.blanks = 1) :
    fs.flatMap (fun f => f.name ++ bytesOf ": " ++ f.value ++ CRLF) = fieldText fs := by
  induction fs with
  | nil => rfl
  | cons f fs ih =>
      rw [List.forall_mem_cons] at h
      have hline : f.name ++ bytesOf ": " ++ f.value ++ CRLF = f.line ++ CRLF := by
        rw [Field.line, h.1, show bytesOf ": " = [58, 32] from rfl]
        simp
      rw [List.flatMap_cons, ih h.2, hline]
      rfl

/-- `net_parse_rsp` and `net_forward_rsp_header` on the data of a response head. -/
theorem ResponseHead.parse {data : NetData} {extra : Bytes} (h : ResponseHead)
    (hdata : data.HoldsHead (statusLine h.major h.minor h.code h.reason) h.fields extra) :
    ∃ rsp : NetRsp,
      netParseRsp { data, code := 0, verMajor := 0, verMinor := 0, httpMsg := 0 } = (rsp, 0) ∧
        rspHead rsp = h.text := by
  obtain ⟨rsp, hparse, hheld, hmajor, hminor, hcode, hmsg⟩ := netParseRsp_statusLine hdata
    h.majorNum.1.1 h.minorNum.1.1 h.codeNum.1.1 h.reasonNe h.reasonPlain
  refine ⟨rsp, hparse, ?_⟩
  rw [rspHead, hmajor, hminor, hcode, hmsg, sprintfD_atoi h.majorNum.1 h.majorNum.2,
    sprintfD_atoi h.minorNum.1 h.minorNum.2, sprintfD_atoi h.codeNum.1 h.codeNum.2,
    fieldLines_names hheld.names, fieldText_oneBlank h.blanks]
  simp only [ResponseHead.text, headText, statusLine, List.append_assoc]

/-- `net_forward_rsp_header` writes the head until the connection takes no more. -/
theorem netForwardRspHeader_eval (rsp : NetRsp) (src : Role) (hok : w.Ok) :
    ∃ put w', Evals (netForwardRspHeader rsp src.other) w 0 w' ∧
      w'.unread src = w.unread src ∧
      (w'.sock src.other).sent = (w.sock src.other).sent ++ put ∧ put <+: rspHead rsp ∧
      (w.Takes src.other (rspHead rsp).length → put = rspHead rsp) := by
  have hwrite {ret : Int} {w' : Wire} (he : Evals (connWrite src.other (rspHead rsp)) w ret w') :
      Evals (netForwardRspHeader rsp src.other) w 0 w' := by
    rw [netForwardRspHeader, (rspHeader_holds rsp).raw.content]
    exact he.bind (by simp)
  rcases connWrite_eval src hok (rspHead_ne_nil rsp) with
    ⟨w', he, h, _, _⟩ | ⟨k, w', he, h, _, hroom, hlt⟩
  · exact ⟨_, w', hwrite he, h.unread.symm, h.sent, List.prefix_refl _, fun _ => rfl⟩
  · refine ⟨_, w', hwrite he, h.unread.symm, h.sent, List.take_prefix _ _, fun htakes => ?_⟩
    have hle := htakes k hroom
    omega

/-- A response head in front of the stream is fetched and parsed, and what
    `net_forward_rsp_header` writes are its bytes: all of them, where the other connection
    takes them. -/
theorem rspHead_passThrough (heap : Nat → Bytes) (h : ResponseHead)
    (hfits : h.text.length ≤ HTTP_HEADER_MAXLEN) (hok : w.Ok) (hlive : w.Live src)
    (hu : w.unread src = h.text ++ rest) :
    ∃ data rsp w₁ w₂ put,
      Evals (netFetchHttp src (netDataInit heap)) w (0, data) w₁ ∧ Relay src w w₁ h.text [] ∧
      netParseRsp { data, code := 0, verMajor := 0, verMinor := 0, httpMsg := 0 } = (rsp, 0) ∧
      Evals (netForwardRspHeader rsp src.other) w₁ 0 w₂ ∧ w₂.unread src = rest ∧
      (w₂.sock src.other).sent = (w.sock src.other).sent ++ put ∧ put <+: h.text ∧
      (w.Takes src.other h.text.length → put = h.text) := by
  have hline := statusLine_plain h.majorNum.1.1 h.minorNum.1.1 h.codeNum.1.1 h.reasonPlain
  obtain ⟨data, hread, hdata⟩ := headRead_fields heap rest h.fields hline
    (by simp [statusLine, bytesOf]) hfits
  obtain ⟨rsp, hparse, hhead⟩ := h.parse hdata
  rw [show headText _ _ ++ rest = w.unread src from hu.symm] at hread
  obtain ⟨got, w₁, hfetch, h₁, hu₁⟩ := hread.evals hok hlive
  have hgot : got = h.text := by
    have hsplit := h₁.unread
    rw [hu, hu₁] at hsplit
    exact (List.append_cancel_right hsplit).symm
  subst hgot
  obtain ⟨put, w₂, hforward, hu₂, hsent, hprefix, hall⟩ :=
    netForwardRspHeader_eval rsp src (evals_ok hfetch hok)
  rw [hhead] at hprefix hall
  refine ⟨data, rsp, w₁, w₂, put, hfetch, h₁, hparse, hforward, hu₂.trans hu₁, ?_, hprefix,
    fun htakes => hall (h₁.takes_nil.mpr htakes)⟩
  rw [hsent, h₁.sent, List.append_nil]

end

/-- "HTTP/1.1 200 OK" with two fields of one name. -/
def okHead : ResponseHead where
  major := bytesOf "1"
  minor := bytesOf "1"
  code := bytesOf "200"
  reason := bytesOf "OK"
  fields := [
    { name := bytesOf "Via", blanks := 1, value := bytesOf "a", nameNe := by decide,
      nameLt := by decide, nameChars := by simp [bytesOf, isAlpha, isUpper, isLower],
      valueHead := by decide, valuePlain := by decide },
    { name := bytesOf "Via", blanks := 1, value := bytesOf "b", nameNe := by decide,
      nameLt := by decide, nameChars := by simp [bytesOf, isAlpha, isUpper, isLower],
      valueHead := by decide, valuePlain := by decide }]
  majorNum := ⟨⟨⟨by decide, by simp [bytesOf, isDigit]⟩, by decide⟩, by decide⟩
  minorNum := ⟨⟨⟨by decide, by simp [bytesOf, isDigit]⟩, by decide⟩, by decide⟩
  codeNum := ⟨⟨⟨by decide, by simp [bytesOf, isDigit]⟩, by decide⟩, by decide⟩
  reasonNe := by decide
  reasonPlain := by decide
  blanks := by simp

/-- A server that sends this head in front of "x". -/
theorem rspHead_passThrough_ok : ∃ data rsp w₁ w₂,
    Evals (netFetchHttp .server (netDataInit zeroHeap)) (.serving (okHead.text ++ [120]))
      (0, data) w₁ ∧
    netParseRsp { data, code := 0, verMajor := 0, verMinor := 0, httpMsg := 0 } = (rsp, 0) ∧
    Evals (netForwardRspHeader rsp .client) w₁ 0 w₂ ∧ w₂.unread .server = [120] ∧
    (w₂.sock .client).sent = bytesOf "HTTP/1.1 200 OK\r\nVia: a\r\nVia: b\r\n\r\n" := by
  obtain ⟨data, rsp, w₁, w₂, put, hfetch, _, hparse, hforward, hu, hsent, _, hall⟩ :=
    rspHead_passThrough zeroHeap okHead (by decide) (Wire.serving_ok _) (Wire.serving_live _)
      (Wire.serving_unread _)
  rw [hall ((Wire.serving_willing _).takes _)] at hsent
  have htext : okHead.text = bytesOf "HTTP/1.1 200 OK\r\nVia: a\r\nVia: b\r\n\r\n" := by decide
  exact ⟨data, rsp, w₁, w₂, hfetch, hparse, hforward, hu, hsent.trans htext⟩

end HttpProxy
