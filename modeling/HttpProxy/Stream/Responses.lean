/-
  HttpProxy.Stream.Responses

  The responses of one server connection.  net_http_rsp_handler is called once for each
  entry of the list; a call takes exactly one response from the stream, head and body, so
  the next call starts with the next one (`response_good`).  `responses_relay_iff` is the
  whole stream of a server that answers one request after the other.
-/

import HttpProxy.Stream.Request
import HttpProxy.Stream.Response
import HttpProxy.Stream.PassThrough

namespace HttpProxy

open Lib

-- ============================================================================
-- Responses
-- ============================================================================

/-- A response of a version above HTTP/1.0: a head, and the body its fields announce.  What
    stands where a request has its method is the start of the status line. -/
structure Response where
  head : ResponseHead
  body : Body
  newer : 100 < digitsVal 10 head.major * 100 + digitsVal 10 head.minor
  noOverflow : digitsVal 10 head.major * 100 + digitsVal 10 head.minor < 2 ^ 31
  framing : Framing (bytesOf "HTTP/" ++ head.major) head.fields body

namespace Response

variable (r : Response)

def bytes : Bytes := r.head.text ++ r.body.bytes

/-- The status code, which net_http_rsp_handler returns. -/
def code : Int := digitsVal 10 r.head.code

/-- conn_gets accepts the trailer lines of the body. -/
def Good : Prop := ∀ t ∈ r.body.trailers, 255 ∉ t ∧ t.length + 1 ≠ HTTP_HEADER_MAXLEN

theorem line_plain : Plain (statusLine r.head.major r.head.minor r.head.code r.head.reason) :=
  statusLine_plain r.head.majorNum.1.1 r.head.minorNum.1.1 r.head.codeNum.1.1 r.head.reasonPlain

theorem line_ne_nil : statusLine r.head.major r.head.minor r.head.code r.head.reason ≠ [] := by
  simp [statusLine, bytesOf]

end Response

/-- The calls of net_http_rsp_handler for `n` entries with one server; `heaps k` is the memory
    the call finds that `k` more follow. -/
def netServe (heaps : Nat → Nat → Bytes) : Nat → Io (List Int)
  | 0 => return []
  | n + 1 => do
      let ret ← netHttpRspHandler (heaps n)
      let rets ← netServe heaps n
      return ret :: rets

-- ============================================================================
-- The body of a message
-- ============================================================================

/-- What `net_transfer_body_HTTP_1_1` sees of a message: how its buffer starts, and the two
    fields it looks up. -/
structure Sees (data : NetData) (start : Bytes) (fields : List Field) : Prop where
  start : data.buf.str 0 = start
  encoding : ValueOf fields (bytesOf "Transfer-Encoding")
    (netDataGetEnt data (bytesOf "Transfer-Encoding"))
  length : ValueOf fields (bytesOf "Content-Length")
    (netDataGetEnt data (bytesOf "Content-Length"))

section

variable {w : Wire} {src : Role} {data : NetData} {start rest : Bytes} {fields : List Field}
  {body : Body}

theorem Sees.transfer_plain (h : Sees data start fields) (hnot : start ≠ bytesOf "HEAD")
    (hchunked : NotChunked fields) {bytes : Bytes} (hlen : bodyLength data = bytes.length)
    (hok : w.Ok) (hlive : w.Live src) (hdst : w.Willing src.other)
    (hu : w.unread src = bytes ++ rest) :
    ∃ w', Evals (netTransferBody src.other src data) w 0 w' ∧ Relay src w w' bytes bytes := by
  have htake : (w.unread src).take (bodyLength data) = bytes := by
    rw [hu, hlen, List.take_left]
  have hle : bodyLength data ≤ (w.unread src).length := by
    rw [hu, hlen, List.length_append]
    exact Nat.le_add_right _ _
  rw [netTransferBody_plain _ _ (by rw [h.start]; exact hnot) (h.encoding.not_chunked hchunked)]
  split
  · rename_i hzero
    have hnil : bytes = [] := List.length_eq_zero_iff.mp (hlen.symm.trans hzero)
    rw [hnil]
    exact ⟨w, .ret 0 w, .refl src w⟩
  · obtain ⟨w', he, hrelay⟩ := connCopy_takes hok hlive hle (hdst.takes _)
    rw [htake] at hrelay
    exact ⟨w', he, hrelay⟩

/-- The transfer of a body the fields announce: the body is relayed byte for byte, or a
    trailer line conn_gets does not accept ends it with -1. -/
theorem Sees.transfer (h : Sees data start fields) (hframing : Framing start fields body)
    (hok : w.Ok) (hlive : w.Live src) (hdst : w.Willing src.other)
    (hu : w.unread src = body.bytes ++ rest) :
    ((∀ t ∈ body.trailers, 255 ∉ t ∧ t.length + 1 ≠ HTTP_HEADER_MAXLEN) →
      ∃ w', Evals (netTransferBody src.other src data) w 0 w' ∧
        Relay src w w' body.bytes body.bytes) ∧
    ((¬ ∀ t ∈ body.trailers, 255 ∉ t ∧ t.length + 1 ≠ HTTP_HEADER_MAXLEN) →
      ∃ w', Evals (netTransferBody src.other src data) w (-1) w') := by
  cases body with
  | none =>
      refine ⟨fun _ => ?_, fun hbad => absurd (List.forall_mem_nil _) hbad⟩
      by_cases hhead : start = bytesOf "HEAD"
      · rw [netTransferBody, if_pos (h.start.trans hhead)]
        exact ⟨w, .ret 0 w, .refl src w⟩
      · obtain ⟨hnone, hchunked⟩ := hframing.resolve_left hhead
        refine h.transfer_plain hhead hchunked ?_ hok hlive hdst hu
        rw [bodyLength, h.length.eq_none hnone]
        rfl
  | length bytes =>
      refine ⟨fun _ => ?_, fun hbad => absurd (List.forall_mem_nil _) hbad⟩
      obtain ⟨hhead, hlt, hchunked, f, hone, hdigits, hvalue⟩ := hframing
      refine h.transfer_plain hhead hchunked ?_ hok hlive hdst hu
      rw [bodyLength, h.length.eq_one hone, Option.map_some, Option.getD_some,
        atoi_digits hdigits, hvalue, Nat.min_eq_left (by omega),
        toInt32_of_lt (by omega) (by omega)]
      rfl
  | chunked body =>
      obtain ⟨hhead, f, hone, hvalue⟩ := hframing
      have henc : netDataGetEnt data (bytesOf "Transfer-Encoding") = some (bytesOf "chunked") := by
        rw [h.encoding.eq_one hone, hvalue]
      obtain ⟨w₁, buf₁, s₁, hok₁, hlive₁, hdst₁, hbuf₁, hu₁, hall, hgo⟩ :=
        netTransferBody_chunks (by rw [h.start]; exact hhead) henc hok hlive hdst hu
      refine ⟨fun hgood => ?_, fun hbad => ?_⟩
      · obtain ⟨w', he', h', _⟩ := trailers_good body.trailers body.trailer hgood hok₁ hlive₁
          hdst₁ hbuf₁ hu₁
        exact ⟨w', hgo _ _ he', hall _ _ _ h'⟩
      · obtain ⟨w', he'⟩ :=
          trailers_bad body.trailers body.trailer hbad hok₁ hlive₁ hdst₁ hbuf₁ hu₁
        exact ⟨w', hgo _ _ he'⟩

end

-- ============================================================================
-- One call
-- ============================================================================

section

variable {w : Wire} {rest : Bytes} {heap : Nat → Bytes} {heaps : Nat → Nat → Bytes}

/-- The head of a response in front of the stream is fetched, parsed and forwarded as it is;
    the body behind it decides what the call returns. -/
theorem response_head (r : Response) (hfits : r.head.text.length ≤ HTTP_HEADER_MAXLEN)
    (hok : w.Ok) (hlive : w.Live .server) (hclient : w.Willing .client)
    (hu : w.unread .server = r.bytes ++ rest) :
    ∃ data w₁, w₁.Ok ∧ Relay .server w w₁ r.head.text r.head.text ∧
      w₁.unread .server = r.body.bytes ++ rest ∧
      Sees data (bytesOf "HTTP/" ++ r.head.major) r.head.fields ∧
      ∀ ret w', Evals (netTransferBody .client .server data) w₁ ret w' →
        Evals (netHttpRspHandler heap) w (if ret = 0 then r.code else ret) w' := by
  obtain ⟨data, hread, hdata⟩ := headRead_fields heap (r.body.bytes ++ rest)
    r.head.fields r.line_plain r.line_ne_nil hfits
  obtain ⟨rsp, hparse, hhead⟩ := r.head.parse hdata
  obtain ⟨rsp', hparse', hheld, hmajor, hminor, hcode, _⟩ := netParseRsp_statusLine hdata
    r.head.majorNum.1.1 r.head.minorNum.1.1 r.head.codeNum.1.1 r.head.reasonNe r.head.reasonPlain
  obtain rfl : rsp' = rsp := (Prod.mk.inj (hparse'.symm.trans hparse)).1
  have hnum {ds : Bytes} (h : Canonical ds ∧ digitsVal 10 ds < 2 ^ 31) :
      atoi ds = (digitsVal 10 ds : Int) := by
    rw [atoi_digits h.1.1, Nat.min_eq_left (by omega), toInt32_of_lt (by omega) (by omega)]
  obtain ⟨w₀, hok₀, h₀, hgo⟩ := netHttpRspHandler_fetch hok
  have hu₀ : headText (statusLine r.head.major r.head.minor r.head.code r.head.reason)
      r.head.fields ++ (r.body.bytes ++ rest) = w₀.unread .server := by
    rw [← show w.unread .server = w₀.unread .server from h₀.unread, hu, Response.bytes,
      ResponseHead.text, List.append_assoc]
  rw [hu₀] at hread
  obtain ⟨got, w₁, hfetch, h₁, hu₁⟩ := hread.evals hok₀ (h₀.live hlive)
  obtain rfl : got = r.head.text := by
    have hsplit := h₁.unread
    rw [hu₁, ← hu₀] at hsplit
    exact (List.append_cancel_right hsplit).symm
  have h₀₁ := h₀.trans h₁
  have hwilling₁ : w₁.Willing .client := h₀₁.willing hclient
  obtain ⟨w₂, hwrite, h₂, _⟩ := connWrite_takes (evals_ok hfetch hok₀)
    (show w₁.Live Role.server.other from hwilling₁.live)
    (hwilling₁.takes (rspHead rsp').length)
  have hall := h₀₁.trans h₂
  rw [hhead, List.append_nil] at hall
  have hnewer := r.newer
  have hover := r.noOverflow
  have hver : rsp'.version > 100 := by
    rw [NetRsp.version, hmajor, hminor, hnum r.head.majorNum, hnum r.head.minorNum,
      toInt32_of_lt (by omega) (by omega)]
    omega
  have hnames := hheld.names
  refine ⟨rsp'.data, w₂, evals_ok hwrite (evals_ok hfetch hok₀), hall,
    h₂.unread.symm.trans hu₁, ⟨?_, ?_, ?_⟩, fun ret w' hbody => ?_⟩
  · have hbuf := hheld.buf
    rw [cutStatusLine] at hbuf
    refine Strbuf.Holds.str_at (s := []) (r := r.head.minor ++ ([0] ++ (r.head.code ++ ([0] ++
      r.head.reason))) ++ 0 :: (cells r.head.fields ++ [])) ?_ rfl ?_
    · simpa using hbuf
    · rw [List.mem_append, not_or]
      exact ⟨by decide, digits_nul r.head.majorNum.1.1⟩
  · rw [netDataGetEnt_names hnames]
    exact valueOf_found _ _
  · rw [netDataGetEnt_names hnames]
    exact valueOf_found _ _
  · refine (hgo _ _).mpr (hfetch.bind ?_)
    simp only [hparse, ne_eq, not_true_eq_false, if_false]
    refine (netRelayRsp_evals rsp').mpr (hwrite.bind ?_)
    rw [relayBody, if_pos hver]
    refine hbody.bind ((logRsp_evals rsp' ret).mpr ⟨?_, rfl⟩)
    rw [hcode, hnum r.head.codeNum]
    rfl

/-- A good response is relayed, head and body; a failure is reported with -1. -/
theorem response_call (r : Response) (hfits : r.head.text.length ≤ HTTP_HEADER_MAXLEN)
    (hok : w.Ok) (hlive : w.Live .server) (hclient : w.Willing .client)
    (hu : w.unread .server = r.bytes ++ rest) :
    (r.Good → ∃ w', Evals (netHttpRspHandler heap) w r.code w' ∧
        Relay .server w w' r.bytes r.bytes) ∧
      (¬ r.Good → ∃ w', Evals (netHttpRspHandler heap) w (-1) w') := by
  obtain ⟨data, w₁, hok₁, h₁, hu₁, hsees, hgo⟩ := response_head r hfits hok hlive hclient hu
  obtain ⟨hgood, hbad⟩ := hsees.transfer r.framing hok₁ (h₁.live hlive)
    (h₁.willing hclient) hu₁
  refine ⟨fun h => ?_, fun h => ?_⟩
  · obtain ⟨w', he, h'⟩ := hgood h
    exact ⟨w', hgo 0 w' he, h₁.trans h'⟩
  · obtain ⟨w', he⟩ := hbad h
    exact ⟨w', hgo (-1) w' he⟩

theorem Response.code_ne (r : Response) : r.code ≠ -1 := by
  rw [code]
  omega

-- ============================================================================
-- All calls
-- ============================================================================

theorem netServe_cons {n : Nat} {ret : Int} {rets : List Int} {w w' : Wire} :
    Evals (netServe heaps (n + 1)) w (ret :: rets) w' ↔
      ∃ w₁, Evals (netHttpRspHandler (heaps n)) w ret w₁ ∧
        Evals (netServe heaps n) w₁ rets w' := by
  constructor
  · intro h
    obtain ⟨x, w₁, hcall, hrest⟩ := h.of_bind
    obtain ⟨xs, w₂, hserve, hret⟩ := hrest.of_bind
    obtain ⟨heq, rfl⟩ := Eval.of_ret hret
    obtain ⟨rfl, rfl⟩ := List.cons.inj heq
    exact ⟨w₁, hcall, hserve⟩
  · rintro ⟨w₁, hcall, hserve⟩
    exact hcall.bind (hserve.bind (.ret _ _))

/-- Good responses are relayed one after the other. -/
theorem responses_good (rs : List Response)
    (hfits : ∀ r ∈ rs, r.head.text.length ≤ HTTP_HEADER_MAXLEN) (hgood : ∀ r ∈ rs, r.Good)
    (hok : w.Ok) (hlive : w.Live .server) (hclient : w.Willing .client)
    (hu : w.unread .server = rs.flatMap Response.bytes ++ rest) :
    ∃ w', Evals (netServe heaps rs.length) w (rs.map Response.code) w' ∧
      Relay .server w w' (rs.flatMap Response.bytes) (rs.flatMap Response.bytes) := by
  induction rs generalizing w with
  | nil => exact ⟨w, .ret _ w, .refl .server w⟩
  | cons r rs ih =>
      rw [List.forall_mem_cons] at hfits hgood
      rw [List.flatMap_cons, List.append_assoc] at hu
      obtain ⟨w₁, hcall, h₁⟩ := (response_call r hfits.1 hok hlive hclient hu).1 hgood.1
      obtain ⟨w', hserve, h'⟩ := ih hfits.2 hgood.2 (evals_ok hcall hok) (h₁.live hlive)
        (h₁.willing hclient) (h₁.unread_rest hu)
      exact ⟨w', netServe_cons.mpr ⟨w₁, hcall, hserve⟩, h₁.trans h'⟩

/-- Calls that return the codes of the responses have met good ones only. -/
theorem responses_of_codes (rs : List Response)
    (hfits : ∀ r ∈ rs, r.head.text.length ≤ HTTP_HEADER_MAXLEN) (hok : w.Ok)
    (hlive : w.Live .server) (hclient : w.Willing .client)
    (hu : w.unread .server = rs.flatMap Response.bytes ++ rest) {w' : Wire}
    (he : Evals (netServe heaps rs.length) w (rs.map Response.code) w') : ∀ r ∈ rs, r.Good := by
  induction rs generalizing w with
  | nil => exact List.forall_mem_nil _
  | cons r rs ih =>
      rw [List.forall_mem_cons] at hfits
      rw [List.flatMap_cons, List.append_assoc] at hu
      obtain ⟨w₁, hcall, hserve⟩ := netServe_cons.mp he
      obtain ⟨hgood, hbad⟩ := response_call r hfits.1 hok hlive hclient hu
      have hr : r.Good := by
        by_contra hnot
        obtain ⟨w₂, hcall'⟩ := hbad hnot
        exact r.code_ne (hcall.det hcall').1
      obtain ⟨w₂, hcall', h₂⟩ := hgood hr
      obtain ⟨_, rfl⟩ := hcall.det hcall'
      exact List.forall_mem_cons.mpr ⟨hr, ih hfits.2 (evals_ok hcall hok) (h₂.live hlive)
        (h₂.willing hclient) (h₂.unread_rest hu) hserve⟩

/-- A server that answers one request after the other on one connection, in whatever
    segments: the client gets exactly the bytes of all responses, each call returns the code
    of its response and takes nothing of the next, and both connections stay open, if and
    only if no trailer line holds the byte 0xFF or is one byte shorter than the limit. -/
theorem responses_relay_iff (rs : List Response)
    (hfits : ∀ r ∈ rs, r.head.text.length ≤ HTTP_HEADER_MAXLEN) (hok : w.Ok)
    (hlive : w.Live .server) (hclient : w.Willing .client)
    (hu : w.unread .server = rs.flatMap Response.bytes ++ rest) :
    (∃ w', Evals (netServe heaps rs.length) w (rs.map Response.code) w' ∧
        Relay .server w w' (rs.flatMap Response.bytes) (rs.flatMap Response.bytes)) ↔
      ∀ r ∈ rs, ∀ t ∈ r.body.trailers, 255 ∉ t ∧ t.length + 1 ≠ HTTP_HEADER_MAXLEN := by
  constructor
  · rintro ⟨w', he, _⟩
    exact responses_of_codes rs hfits hok hlive hclient hu he
  · intro hgood
    exact responses_good rs hfits hgood hok hlive hclient hu

end

/-- "HTTP/1.1 200 OK" with a body of three bytes. -/
def threeBytes : Response where
  head := {
    okHead with
    fields := [{
      name := bytesOf "Content-Length", blanks := 1, value := bytesOf "3", nameNe := by decide,
      nameLt := by decide, nameChars := by simp [bytesOf, isAlpha, isUpper, isLower],
      valueHead := by decide, valuePlain := by decide }]
    blanks := by simp }
  body := .length [97, 98, 99]
  newer := by decide
  noOverflow := by decide
  framing := by
    refine ⟨by decide, by decide, ?_, ?_⟩
    · intro f hf hname
      rw [List.mem_singleton] at hf
      rw [hf] at hname
      exact absurd hname (by decide)
    · exact ⟨_, rfl, ⟨by decide, by simp [bytesOf, isDigit]⟩, by decide⟩

/-- It is sent twice, and "x" behind it. -/
theorem responses_relay_two : ∃ w',
    Evals (netServe (fun _ => zeroHeap) 2)
      (.serving (threeBytes.bytes ++ threeBytes.bytes ++ [120])) [200, 200] w' ∧
    (w'.sock .client).sent = threeBytes.bytes ++ threeBytes.bytes ∧ w'.unread .server = [120] := by
  have hu : (Wire.serving (threeBytes.bytes ++ threeBytes.bytes ++ [120])).unread .server =
      [threeBytes, threeBytes].flatMap Response.bytes ++ [120] := by
    rw [Wire.serving_unread]
    simp
  obtain ⟨w', he, h⟩ := (responses_relay_iff [threeBytes, threeBytes] (by decide +kernel)
    (Wire.serving_ok _) (Wire.serving_live _) (Wire.serving_willing _) hu).mpr (by decide)
  have hsent : (w'.sock .client).sent =
      [] ++ [threeBytes, threeBytes].flatMap Response.bytes := h.sent
  refine ⟨w', he, hsent.trans (by simp), h.unread_rest hu⟩

end HttpProxy
