/-
  HttpProxy.Stream.RequestHead

  net_parse_req on the head of a request with an absolute URI: the method, the host,
  the port, the path and every field are found.  A URI whose scheme is not in lower
  case is not split.
-/

import HttpProxy.Parse.Recover
import HttpProxy.Stream.PassThrough

namespace HttpProxy

open Lib

-- ============================================================================
-- Characters
-- ============================================================================

theorem authChar_plain {x : UInt8} (h : authChar x = true) : plainChar x = true := by
  rw [plainChar_iff]
  refine ⟨?_, ?_, ?_, ?_⟩ <;> rintro rfl <;> exact absurd h (by decide)

theorem requestLine_plain {method uri a b : Bytes} (hmethod : ∀ x ∈ method, isAlpha x = true)
    (huri : Plain uri) (ha : Digits a) (hb : Digits b) : Plain (requestLine method uri a b) := by
  have hm : Plain method := fun x hx =>
    Field.plainChar_of_nameChar (by rw [nameChar, hmethod x hx]; rfl)
  have hhttp : Plain (bytesOf " HTTP/") := by decide
  have hdot : Plain [46] := by decide
  have hspace : Plain [32] := by decide
  simp only [requestLine, plain_append]
  exact ⟨hm, hspace, huri, hhttp, digits_plain ha, hdot, digits_plain hb⟩

-- ============================================================================
-- What is found
-- ============================================================================

/-- What `net_parse_req` has found in a head. -/
structure NetReq.Found (req : NetReq) (fs : List Field) (method host path : Bytes) (port : Int) :
    Prop where
  names : List.Forall₂ (Names req.data.buf) req.data.table fs
  method : req.data.buf.str 0 = method
  host : req.data.buf.str req.host = host
  path : req.data.buf.str req.path = path
  port : req.port = port

section

variable {data : NetData} {line method scheme host path a b : Bytes} {port : Option Bytes}
  {fs : List Field} {req : NetReq}

/-- A field whose string is kept is still named by its entry. -/
theorem names_kept {buf buf' : Strbuf} {table : List NetHeaderEnt}
    (h : List.Forall₂ (Names buf) table fs)
    (hkept : ∀ e ∈ table, buf'.str e.valOffset = buf.str e.valOffset) :
    List.Forall₂ (Names buf') table fs := by
  induction h with
  | nil => exact .nil
  | @cons e f table fs hname _ ih =>
      refine .cons ⟨hname.1, ?_⟩ (ih fun e' he' => hkept e' (List.mem_cons_of_mem _ he'))
      rw [hkept e List.mem_cons_self]
      exact hname.2

/-- A URI with a scheme in lower case is split, and the fields are left as they are. -/
theorem absolute_found (h : Fetched line data)
    (hstr : data.buf.str 0 = requestLine method (uriText scheme (host ++ portText port) path) a b)
    (hfields : List.Forall₂ (Names data.buf) data.table fs)
    (hm : method ≠ []) (hmethod : ∀ x ∈ method, isAlpha x = true)
    (hconnect : method ≠ bytesOf "CONNECT") (hs : scheme ≠ [])
    (hscheme : ∀ x ∈ scheme, isLower x = true) (hne : host ≠ [])
    (hhost : ∀ x ∈ host, hostChar x = true) (hport : PortOk port)
    (hpath : ∀ x ∈ path.head?, x = 47) (ha : Digits a) (hb : Digits b) :
    ∃ req, netParseReq (netReqInit data) = (req, 0) ∧
      req.Found fs method host (if path = [] then [47] else path) (portNum port) := by
  have hline := h.lineAt.1.str.symm.trans hstr
  obtain ⟨req, hreq, hparsed, hpathAt, hframe⟩ := recover_absolute h hline hm hmethod hconnect hs
    hscheme hne hhost hport hpath ha hb
  have hnames : List.Forall₂ (Names req.data.buf) req.data.table fs := by
    rw [hparsed.table]
    refine names_kept hfields fun e he => ?_
    obtain ⟨hoff, v, hv, hin⟩ := h.entry he
    rw [(hframe _ v hv hin hoff).str, hv.str]
  exact ⟨req, hreq, hnames, hparsed.methodAt.str, hparsed.hostAt.str, hpathAt.str,
    hparsed.portIs.trans (portInt_eq hport)⟩

/-- A URI whose scheme is not in lower case is not split: where the request is not refused,
    the path is the whole URI. -/
theorem upper_path {u : Bytes} (h : Fetched line data)
    (hstr : data.buf.str 0 = requestLine method (scheme ++ u) a b) (hm : method ≠ [])
    (hmethod : ∀ x ∈ method, isAlpha x = true) (hconnect : method ≠ bytesOf "CONNECT")
    (hscheme : ∃ x ∈ scheme, isLower x = false) (hcolon : 58 ∉ scheme) (ha : Digits a)
    (hb : Digits b) (hreq : netParseReq (netReqInit data) = (req, 0)) :
    req.data.buf.str req.path = scheme ++ u := by
  have hline := h.lineAt.1.str.symm.trans hstr
  have hnone := uriPatt_none hscheme hcolon u
  have hne : scheme ++ u ≠ [] := by
    obtain ⟨x, hx, -⟩ := hscheme
    exact List.append_ne_nil_of_left_ne_nil (List.ne_nil_of_mem hx) _
  have hshape : RequestShape method (scheme ++ u) a b :=
    ⟨hm, hmethod, hne, lineStr_uri hline, ha, hb⟩
  cases hoff : netDataGetEntOffset data (bytesOf "Host") with
  | none =>
      obtain ⟨req₁, -, heq⟩ := origin_host h hline hshape hconnect hnone
      rw [hoff, hreq] at heq
      exact absurd (Prod.mk.inj heq).2 (by decide)
  | some off =>
      rcases hostShape_total (data.buf.str off) with hhead | ⟨host, port, rest, htext, hhost⟩
      · have hfield : netDataGetEnt data (bytesOf "Host") = some (data.buf.str off) := by
          rw [netDataGetEnt, hoff, Option.map_some]
        obtain ⟨r, hr⟩ :=
          authority_refused h (.origin hline hshape hconnect hnone hfield) hhead
        rw [hreq] at hr
        exact absurd (Prod.mk.inj hr).2 (by decide)
      · obtain ⟨req', hreq', -, hpathAt, -⟩ :=
          parse_origin h hline hshape hconnect hnone hoff htext hhost
        obtain ⟨rfl, -⟩ := Prod.mk.inj (hreq.symm.trans hreq')
        exact hpathAt.str

end

end HttpProxy
