/-
  HttpProxy.Stream.Rebuild

  The heads the proxy writes, as bytes: `reqHeader_holds` for net_forward_req_header
  and `rspHeader_holds` for net_forward_rsp_header.
-/

import HttpProxy.Stream.Buffer
import HttpProxy.Core.NetHttp

namespace HttpProxy

def CRLF : Bytes := [13, 10]

/-- A header field as `net_append_headers` writes it. -/
def fieldLine (data : NetData) (h : NetHeaderEnt) : Bytes :=
  h.keyStr ++ bytesOf ": " ++ data.buf.str h.valOffset ++ CRLF

/-- The fields of a head and the blank line. -/
def fieldLines (data : NetData) : Bytes := data.table.flatMap (fieldLine data) ++ CRLF

section

variable {buf : Strbuf} {s : Bytes}

theorem strbufAppend_hold (c : UInt8) (h : buf.Holds s) : (strbufAppend buf c).Holds (s ++ [c]) :=
  strbufAppend_holds h.raw

theorem strbufAppendNum_hold (x : Int) (h : buf.Holds s) :
    (strbufAppendNum buf x).Holds (s ++ sprintfD x) :=
  strbufCat_holds h

theorem appendHeader_holds (data : NetData) (e : NetHeaderEnt) (h : buf.Holds s) :
    (appendHeader data buf e).Holds (s ++ fieldLine data e) := by
  have hname := strbufCat_holds (t := bytesOf ": ") (strbufCat_holds (t := e.keyStr) h)
  have hvalue := strbufCat_holds (t := data.buf.str e.valOffset) hname
  have hline : s ++ fieldLine data e =
      s ++ e.keyStr ++ bytesOf ": " ++ data.buf.str e.valOffset ++ CRLF := by
    simp only [fieldLine, List.append_assoc]
  rw [hline]
  exact strbufCat_holds (t := bytesOf "\r\n") hvalue

theorem appendHeaders_holds (data : NetData) (es : List NetHeaderEnt) (h : buf.Holds s) :
    (es.foldl (appendHeader data) buf).Holds (s ++ es.flatMap (fieldLine data)) := by
  induction es generalizing buf s with
  | nil => simpa using h
  | cons e es ih =>
      rw [List.foldl_cons, List.flatMap_cons, ← List.append_assoc]
      exact ih (appendHeader_holds data e h)

theorem netAppendHeaders_holds (data : NetData) (h : buf.Holds s) :
    (netAppendHeaders data buf).Holds (s ++ fieldLines data) := by
  have hcat := strbufCat_holds (t := bytesOf "\r\n") (appendHeaders_holds data data.table h)
  rw [fieldLines, ← List.append_assoc]
  exact hcat

end

/-- The head of a response as it is written. -/
def rspHead (rsp : NetRsp) : Bytes :=
  bytesOf "HTTP/" ++ sprintfD rsp.verMajor ++ [46] ++ sprintfD rsp.verMinor ++ [32] ++
    sprintfD rsp.code ++ [32] ++ rsp.data.buf.str rsp.httpMsg ++ CRLF ++ fieldLines rsp.data

theorem rspHeader_holds (rsp : NetRsp) : (rspHeader rsp).Holds (rspHead rsp) := by
  have hversion := strbufAppendNum_hold rsp.verMinor (strbufAppend_hold 46
    (strbufAppendNum_hold rsp.verMajor (strbufCat_holds (t := bytesOf "HTTP/") strbufInit_holds)))
  have hcode := strbufAppend_hold 32 (strbufAppendNum_hold rsp.code (strbufAppend_hold 32 hversion))
  have hmsg := strbufCat_holds (t := bytesOf "\r\n")
    (strbufCat_holds (t := rsp.data.buf.str rsp.httpMsg) hcode)
  exact netAppendHeaders_holds rsp.data hmsg

/-- The head of a request as it is written. -/
def reqHead (req : NetReq) : Bytes :=
  req.data.buf.str 0 ++ [32] ++ req.data.buf.str req.path ++ [32] ++ bytesOf "HTTP/" ++
    sprintfD req.verMajor ++ [46] ++ sprintfD req.verMinor ++ CRLF ++ fieldLines req.data

theorem reqHeader_holds (req : NetReq) : (reqHeader req).Holds (reqHead req) := by
  have hmethod := strbufAppend_hold 32
    (strbufCat_holds (t := req.data.buf.str 0) strbufInit_holds)
  have hpath := strbufAppend_hold 32 (strbufCat_holds (t := req.data.buf.str req.path) hmethod)
  have hversion := strbufAppendNum_hold req.verMinor (strbufAppend_hold 46
    (strbufAppendNum_hold req.verMajor (strbufCat_holds (t := bytesOf "HTTP/") hpath)))
  exact netAppendHeaders_holds req.data (strbufCat_holds (t := bytesOf "\r\n") hversion)

theorem rspHead_ne_nil (rsp : NetRsp) : rspHead rsp ≠ [] := by
  simp [rspHead]

end HttpProxy
