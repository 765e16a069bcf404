/-
  HttpProxy.Stream.Request

  A request as a client sends it: a head with an absolute URI and the body its fields
  announce.  The head is fetched and parsed (`Request.fetch`, `Request.parse`), and the
  body is relayed by what the proxy reads from the head (`body_eval`, `body_bad`).
-/

import HttpProxy.Stream.RequestHead
import HttpProxy.Stream.BodyRun
import HttpProxy.Stream.Chunked
import HttpProxy.System.Step
import Mathlib.Data.List.Find

namespace HttpProxy

open Lib

-- ============================================================================
-- Handlers
-- ============================================================================

/-- A method is compared up to the blank behind it. -/
theorem methodStrcmp_line (h m r : Bytes) (hm : 32 ∉ m) (hh : 32 ∉ h) :
    methodStrcmp h (m ++ 32 :: r) = decide (h = m) := by
  induction h generalizing m with
  | nil =>
      cases m with
      | nil => rfl
      | cons b m =>
          have hb : b ≠ 32 := fun heq => hm (by rw [heq]; exact List.mem_cons_self)
          rw [List.cons_append, methodStrcmp]
          simp [hb]
  | cons a h ih =>
      cases m with
      | nil =>
          rw [List.nil_append, methodStrcmp, if_pos rfl]
          simp
      | cons b m =>
          rw [List.mem_cons, not_or] at hm hh
          have hb : b ≠ 32 := fun heq => hm.1 heq.symm
          rw [List.cons_append, methodStrcmp, if_neg hb]
          by_cases hab : a = b
          · rw [if_pos hab, ih m hm.2 hh.2, hab]
            simp
          · rw [if_neg hab]
            simp [hab]

/-- The handler of a request line is the one registered for its method. -/
theorem netGetHandler_line (m r : Bytes) (hm : 32 ∉ m) :
    netGetHandler (m ++ 32 :: r) = (handlers.find? (·.1 = m)).map (·.2) := by
  have hnames : ∀ h ∈ handlers, 32 ∉ h.1 := by decide
  rw [netGetHandler]
  congr 1
  apply List.find?_congr
  intro h hh
  exact methodStrcmp_line h.1 m r hm (hnames h hh)

-- ============================================================================
-- Requests
-- ============================================================================

inductive Body where
  | none
  | length (data : Bytes)
  | chunked (body : ChunkedBody)

def Body.bytes : Body → Bytes
  | .none => []
  | .length data => data
  | .chunked body => body.bytes

def Body.trailers : Body → List Bytes
  | .chunked body => body.trailers
  | _ => []

/-- No field says that the body is chunked. -/
def NotChunked (fields : List Field) : Prop :=
  ∀ f ∈ fields, f.name = bytesOf "Transfer-Encoding" → f.value ≠ bytesOf "chunked"

/-- The fields of a head announce the body behind it; a HEAD request has none. -/
def Framing (method : Bytes) (fields : List Field) : Body → Prop
  | .none => method = bytesOf "HEAD" ∨
      (∀ f ∈ fields, f.name ≠ bytesOf "Content-Length") ∧ NotChunked fields
  | .length data => method ≠ bytesOf "HEAD" ∧ data.length < 2 ^ 31 ∧ NotChunked fields ∧
      ∃ f, fields.filter (·.name = bytesOf "Content-Length") = [f] ∧ Digits f.value ∧
        digitsVal 10 f.value = data.length
  | .chunked _ => method ≠ bytesOf "HEAD" ∧
      ∃ f, fields.filter (·.name = bytesOf "Transfer-Encoding") = [f] ∧ f.value = bytesOf "chunked"

/-- A character of a URI scheme. -/
def schemeChar (b : UInt8) : Bool := isAlpha b || isDigit b || b = 43 || b = 45 || b = 46

/-- A request with an absolute URI. -/
structure Request where
  method : Bytes
  scheme : Bytes
  host : Bytes
  port : Option Bytes
  path : Bytes
  major : Bytes
  minor : Bytes
  fields : List Field
  body : Body
  registered : (method, HandlerKind.http) ∈ handlers
  schemeNe : scheme ≠ []
  schemeChars : ∀ b ∈ scheme, schemeChar b = true
  hostNe : host ≠ []
  hostChars : ∀ b ∈ host, isAlpha b = true ∨ isDigit b = true ∨ b = 46 ∨ b = 45
  portDigits : ∀ p ∈ port, Digits p ∧ digitsVal 10 p < 65536
  pathHead : ∀ b ∈ path.head?, b = 47
  pathPlain : Plain path
  majorDigits : Digits major
  minorDigits : Digits minor
  framing : Framing method fields body

namespace Request

variable (r : Request)

def uri : Bytes := uriText r.scheme (r.host ++ portText r.port) r.path

def line : Bytes := requestLine r.method r.uri r.major r.minor

def head : Bytes := headText r.line r.fields

def bytes : Bytes := r.head ++ r.body.bytes

/-- The path a server is asked for. -/
def target : Bytes := if r.path = [] then [47] else r.path

/-- The proxy can split the URI, and conn_gets accepts the trailer lines of the body. -/
def Good : Prop :=
  (∀ b ∈ r.scheme, isLower b = true) ∧
    ∀ t ∈ r.body.trailers, 255 ∉ t ∧ t.length + 1 ≠ HTTP_HEADER_MAXLEN

/-- The parsed request is this one. -/
def Dispatched (req : NetReq) : Prop :=
  req.Found r.fields r.method r.host r.target (portNum r.port)

theorem method_cases : r.method = bytesOf "GET" ∨ r.method = bytesOf "POST" ∨
    r.method = bytesOf "HEAD" ∨ r.method = bytesOf "PUT" ∨ r.method = bytesOf "DELETE" := by
  have hmem := r.registered
  simpa [handlers] using hmem

theorem method_alpha : ∀ b ∈ r.method, isAlpha b = true := by
  rcases r.method_cases with h | h | h | h | h <;> rw [h] <;>
    simp [bytesOf, isAlpha, isUpper, isLower]

theorem method_ne_nil : r.method ≠ [] := by
  rcases r.method_cases with h | h | h | h | h <;> rw [h] <;> decide

theorem method_ne_connect : r.method ≠ bytesOf "CONNECT" := by
  rcases r.method_cases with h | h | h | h | h <;> rw [h] <;> decide

theorem method_handler : (handlers.find? (·.1 = r.method)).map (·.2) = some .http := by
  rcases r.method_cases with h | h | h | h | h <;> rw [h] <;> decide

theorem host_hostChar : ∀ b ∈ r.host, hostChar b = true := by
  intro b hb
  rcases r.hostChars b hb with h | h | rfl | rfl
  · simp [hostChar, h]
  · simp [hostChar, h]
  · decide
  · decide

theorem schemeChar_plain {b : UInt8} (h : schemeChar b = true) : plainChar b = true := by
  rw [plainChar_iff]
  refine ⟨?_, ?_, ?_, ?_⟩ <;> rintro rfl <;> exact absurd h (by decide)

theorem uri_plain : Plain r.uri := by
  have hslashes : Plain (bytesOf "://") := by decide
  rw [uri, uriText, plain_append, plain_append, plain_append]
  exact ⟨fun b hb => schemeChar_plain (r.schemeChars b hb), hslashes,
    fun b hb => authChar_plain (authority_char r.host_hostChar r.portDigits b hb), r.pathPlain⟩

theorem line_plain : Plain r.line :=
  requestLine_plain r.method_alpha r.uri_plain r.majorDigits r.minorDigits

theorem line_ne_nil : r.line ≠ [] :=
  List.append_ne_nil_of_left_ne_nil r.method_ne_nil _

end Request

-- ============================================================================
-- The head of a request
-- ============================================================================

section

variable {w : Wire} {rest : Bytes} {data : NetData}

/-- A request in front of the stream is fetched, and its handler is found. -/
theorem Request.fetch (heap : Nat → Bytes) (r : Request)
    (hfits : r.head.length ≤ HTTP_HEADER_MAXLEN) (hok : w.Ok) (hlive : w.Live .client)
    (hu : w.unread .client = r.bytes ++ rest) :
    ∃ data w₁, Evals (netFetchHttp .client (netDataInit heap)) w (0, data) w₁ ∧
      (∃ got, Relay .client w w₁ got []) ∧ w₁.unread .client = r.body.bytes ++ rest ∧
      data.HoldsHead r.line r.fields [] ∧ (∃ line, Fetched line data) ∧
      netGetHandler (data.buf.str 0) = some .http := by
  obtain ⟨data, hread, hdata⟩ :=
    headRead_fields heap (r.body.bytes ++ rest) r.fields r.line_plain r.line_ne_nil hfits
  have hsplit : headText r.line r.fields ++ (r.body.bytes ++ rest) = w.unread .client := by
    rw [hu, Request.bytes, Request.head, List.append_assoc]
  rw [hsplit] at hread
  obtain ⟨got, w₁, hfetch, h₁, hu₁⟩ := hread.evals hok hlive
  have hstr : data.buf.str 0 = r.line := hdata.buf.str_at (s := []) rfl r.line_plain.nul
  have hblank : 32 ∉ r.method := fun hmem => absurd (r.method_alpha 32 hmem) (by decide)
  have hfetched : ∃ line, Fetched line data := by
    rcases hread.fetched with hinit | ⟨line, -, hline⟩
    · rw [hinit] at hstr
      exact absurd hstr.symm r.line_ne_nil
    · exact ⟨line, hline⟩
  refine ⟨data, w₁, hfetch, ⟨got, h₁⟩, hu₁, hdata, hfetched, ?_⟩
  rw [hstr, Request.line, requestLine, List.singleton_append,
    netGetHandler_line r.method _ hblank, r.method_handler]

/-- A URI with a scheme in lower case is parsed. -/
theorem Request.parse (r : Request) (h : data.HoldsHead r.line r.fields []) {line : Bytes}
    (hline : Fetched line data) (hlower : ∀ b ∈ r.scheme, isLower b = true) :
    ∃ req, netParseReq (netReqInit data) = (req, 0) ∧ r.Dispatched req := by
  have hstr : data.buf.str 0 = r.line := h.buf.str_at (s := []) rfl r.line_plain.nul
  exact absolute_found hline hstr h.names r.method_ne_nil r.method_alpha r.method_ne_connect
    r.schemeNe hlower r.hostNe r.host_hostChar r.portDigits r.pathHead r.majorDigits r.minorDigits

/-- Another one is refused, or taken for a path. -/
theorem Request.parse_upper (r : Request) (h : data.HoldsHead r.line r.fields []) {line : Bytes}
    (hline : Fetched line data) (hupper : ¬ ∀ b ∈ r.scheme, isLower b = true) {req : NetReq}
    (hparse : netParseReq (netReqInit data) = (req, 0)) : ¬ r.Dispatched req := by
  intro hfound
  have hstr : data.buf.str 0 = r.line := h.buf.str_at (s := []) rfl r.line_plain.nul
  have hscheme : ∃ b ∈ r.scheme, isLower b = false := by
    simpa using hupper
  have hcolon : 58 ∉ r.scheme := fun hmem => absurd (r.schemeChars 58 hmem) (by decide)
  have hpath := upper_path hline hstr r.method_ne_nil r.method_alpha r.method_ne_connect hscheme
    hcolon r.majorDigits r.minorDigits hparse
  rw [hfound.path] at hpath
  -- the scheme would begin with a slash
  obtain ⟨x, xs, hx⟩ := List.exists_cons_of_ne_nil r.schemeNe
  have hhead := congrArg List.head? hpath
  rw [Request.target, hx, List.cons_append, List.head?_cons] at hhead
  have hslash : x = 47 := by
    split at hhead
    · exact (Option.some.inj hhead).symm
    · exact r.pathHead x hhead
  have hchar := r.schemeChars x (by rw [hx]; exact List.mem_cons_self)
  rw [hslash] at hchar
  exact absurd hchar (by decide)

end

-- ============================================================================
-- The body of a request
-- ============================================================================

section

variable {fields : List Field} {method host path : Bytes} {port : Int} {req : NetReq}

theorem ValueOf.not_chunked {v : Option Bytes}
    (hv : ValueOf fields (bytesOf "Transfer-Encoding") v) (h : NotChunked fields) :
    v ≠ some (bytesOf "chunked") := by
  cases hv with
  | absent _ => simp
  | present hf hname =>
      rw [ne_eq, Option.some.injEq]
      exact h _ hf hname

theorem ValueOf.eq_none {key : Bytes} {v : Option Bytes} (hv : ValueOf fields key v)
    (h : ∀ f ∈ fields, f.name ≠ key) : v = none := by
  cases hv with
  | absent _ => rfl
  | present hf hname => exact absurd hname (h _ hf)

theorem ValueOf.eq_one {key : Bytes} {v : Option Bytes} {f : Field} (hv : ValueOf fields key v)
    (h : fields.filter (·.name = key) = [f]) : v = some f.value := by
  have hmem : f ∈ fields ∧ decide (f.name = key) = true :=
    List.mem_filter.mp (by rw [h]; exact List.mem_singleton_self f)
  cases hv with
  | absent hnone => exact absurd (of_decide_eq_true hmem.2) (hnone f hmem.1)
  | @present g hg hname =>
      have hin : g ∈ fields.filter (·.name = key) :=
        List.mem_filter.mpr ⟨hg, decide_eq_true hname⟩
      rw [h, List.mem_singleton] at hin
      rw [hin]

/-- The request with a Host field, as `net_http_req_handler` forwards it. -/
def hostField (req : NetReq) : NetReq :=
  if netDataGetEnt req.data (bytesOf "Host") = none then
    { req with data := netDataSetEntOffset req.data (bytesOf "Host") req.host }
  else req

/-- The Host field the proxy adds. -/
def hostHeader (host : Bytes) (h : ∀ b ∈ host, hostChar b = true) : Field where
  name := bytesOf "Host"
  blanks := 0
  value := host
  nameNe := by decide
  nameLt := by decide
  nameChars := by simp [bytesOf, isAlpha, isUpper, isLower]
  valueHead := by
    intro hhead
    exact absurd (h 32 (List.mem_of_mem_head? hhead)) (by decide)
  valuePlain := fun b hb => authChar_plain (by rw [authChar, h b hb, Bool.true_or])

/-- A field with another name gives no value. -/
theorem ValueOf.of_append {key : Bytes} {v : Option Bytes} {f : Field}
    (hv : ValueOf (fields ++ [f]) key v) (hne : f.name ≠ key) : ValueOf fields key v := by
  cases hv with
  | absent hnone => exact .absent fun g hg => hnone g (List.mem_append_left _ hg)
  | present hg hname =>
      rcases List.mem_append.mp hg with hg | hg
      · exact .present hg hname
      · rw [List.mem_singleton] at hg
        exact absurd (hg ▸ hname) hne

/-- With an added Host field other lookups find fields that were there before. -/
theorem hostField_found (h : req.Found fields method host path port)
    (hhost : ∀ b ∈ host, hostChar b = true) :
    (hostField req).data.buf.str 0 = method ∧
      ∀ key, key ≠ bytesOf "Host" →
        ValueOf fields key (netDataGetEnt (hostField req).data key) := by
  by_cases hnone : netDataGetEnt req.data (bytesOf "Host") = none
  · have hadd : hostField req =
        { req with data := netDataSetEntOffset req.data (bytesOf "Host") req.host } := if_pos hnone
    have hnames : List.Forall₂ (Names req.data.buf)
        (req.data.table ++
          [req.data.newEnt (bytesOf "Host") req.host])
        (fields ++ [hostHeader host hhost]) :=
      List.rel_append h.names (.cons ⟨rfl, h.host⟩ .nil)
    rw [hadd]
    refine ⟨h.method, fun key hkey => ?_⟩
    have hvalue : ValueOf (fields ++ [hostHeader host hhost]) key
        (netDataGetEnt (netDataSetEntOffset req.data (bytesOf "Host") req.host) key) := by
      rw [netDataGetEnt_names hnames key]
      exact valueOf_found _ key
    exact hvalue.of_append (Ne.symm hkey)
  · rw [show hostField req = req from if_neg hnone]
    refine ⟨h.method, fun key _ => ?_⟩
    rw [netDataGetEnt_names h.names key]
    exact valueOf_found fields key

end

section

variable {w : Wire} {rest : Bytes} {data : NetData} {r : Request}

/-- What `net_transfer_body_HTTP_1_1` sees of a request. -/
structure Announces (data : NetData) (r : Request) : Prop where
  method : data.buf.str 0 = r.method
  encoding : ValueOf r.fields (bytesOf "Transfer-Encoding")
    (netDataGetEnt data (bytesOf "Transfer-Encoding"))
  length : ValueOf r.fields (bytesOf "Content-Length")
    (netDataGetEnt data (bytesOf "Content-Length"))

theorem Request.announces {req : NetReq} (h : r.Dispatched req) :
    Announces (hostField req).data r := by
  obtain ⟨hmethod, hlookup⟩ := hostField_found h r.host_hostChar
  exact ⟨hmethod, hlookup _ (by decide), hlookup _ (by decide)⟩

/-- A body that is not chunked is relayed by its length. -/
theorem plainBody_eval (h : Announces data r) (hnot : r.method ≠ bytesOf "HEAD")
    (hchunked : NotChunked r.fields) (hlen : bodyLength data = r.body.bytes.length)
    (hok : w.Ok) (hlive : w.Live .client) (hserver : w.Willing .server)
    (hu : w.unread .client = r.body.bytes ++ rest) :
    ∃ w', Evals (netTransferBody .server .client data) w 0 w' ∧
      Relay .client w w' r.body.bytes r.body.bytes := by
  have htake : (w.unread .client).take (bodyLength data) = r.body.bytes := by
    rw [hu, hlen, List.take_left]
  have hle : bodyLength data ≤ (w.unread .client).length := by
    rw [hu, hlen, List.length_append]
    exact Nat.le_add_right _ _
  rw [netTransferBody_plain _ _ (by rw [h.method]; exact hnot)
    (h.encoding.not_chunked hchunked)]
  split
  · rename_i hzero
    have hnil : r.body.bytes = [] := List.length_eq_zero_iff.mp (hlen.symm.trans hzero)
    rw [hnil]
    exact ⟨w, .ret 0 w, .refl .client w⟩
  · obtain ⟨w', he, hrelay⟩ := connCopy_takes hok hlive hle
      (show w.Takes Role.client.other _ from hserver.takes _)
    rw [htake] at hrelay
    exact ⟨w', he, hrelay⟩

/-- A body whose trailer lines are accepted is relayed to its end. -/
theorem body_eval (h : Announces data r)
    (hgood : ∀ t ∈ r.body.trailers, 255 ∉ t ∧ t.length + 1 ≠ HTTP_HEADER_MAXLEN)
    (hok : w.Ok) (hlive : w.Live .client) (hserver : w.Willing .server)
    (hu : w.unread .client = r.body.bytes ++ rest) :
    ∃ w', Evals (netTransferBody .server .client data) w 0 w' ∧
      Relay .client w w' r.body.bytes r.body.bytes := by
  have hframing := r.framing
  cases hbody : r.body with
  | none =>
      rw [hbody, Framing] at hframing
      rcases hframing with hhead | ⟨hnone, hchunked⟩
      · rw [netTransferBody, if_pos (h.method.trans hhead)]
        exact ⟨w, .ret 0 w, .refl .client w⟩
      · by_cases hhead : r.method = bytesOf "HEAD"
        · rw [netTransferBody, if_pos (h.method.trans hhead)]
          exact ⟨w, .ret 0 w, .refl .client w⟩
        rw [← hbody]
        refine plainBody_eval h hhead hchunked ?_ hok hlive hserver hu
        rw [bodyLength, h.length.eq_none hnone, hbody]
        rfl
  | length bytes =>
      rw [hbody, Framing] at hframing
      obtain ⟨hhead, hlt, hchunked, f, hone, hdigits, hvalue⟩ := hframing
      rw [← hbody]
      refine plainBody_eval h hhead hchunked ?_ hok hlive hserver hu
      rw [bodyLength, h.length.eq_one hone, hbody, Option.map_some, Option.getD_some,
        atoi_digits hdigits, hvalue, Nat.min_eq_left (by omega),
        toInt32_of_lt (by omega) (by omega)]
      rfl
  | chunked body =>
      rw [hbody, Framing] at hframing
      rw [hbody] at hu hgood
      obtain ⟨hhead, f, hone, hvalue⟩ := hframing
      have henc : netDataGetEnt data (bytesOf "Transfer-Encoding") = some (bytesOf "chunked") := by
        rw [h.encoding.eq_one hone, hvalue]
      obtain ⟨w₁, buf₁, s₁, hok₁, hlive₁, hdst₁, hbuf₁, hu₁, hall, hgo⟩ :=
        netTransferBody_chunks (by rw [h.method]; exact hhead) henc hok hlive
          (show w.Willing Role.client.other from hserver) hu
      obtain ⟨w', he', h', hu'⟩ := trailers_good body.trailers body.trailer hgood hok₁ hlive₁ hdst₁
        hbuf₁ hu₁
      exact ⟨w', hgo _ _ he', hall _ _ _ h'⟩

/-- A trailer line that is not accepted ends the transfer with -1. -/
theorem body_bad (h : Announces data r)
    (hbad : ¬ ∀ t ∈ r.body.trailers, 255 ∉ t ∧ t.length + 1 ≠ HTTP_HEADER_MAXLEN)
    (hok : w.Ok) (hlive : w.Live .client) (hserver : w.Willing .server)
    (hu : w.unread .client = r.body.bytes ++ rest) :
    ∃ w', Evals (netTransferBody .server .client data) w (-1) w' := by
  have hframing := r.framing
  cases hbody : r.body with
  | none =>
      rw [hbody] at hbad
      exact absurd (List.forall_mem_nil _) hbad
  | length bytes =>
      rw [hbody] at hbad
      exact absurd (List.forall_mem_nil _) hbad
  | chunked body =>
      rw [hbody, Framing] at hframing
      rw [hbody] at hu hbad
      obtain ⟨hhead, f, hone, hvalue⟩ := hframing
      have henc : netDataGetEnt data (bytesOf "Transfer-Encoding") = some (bytesOf "chunked") := by
        rw [h.encoding.eq_one hone, hvalue]
      obtain ⟨w₁, buf₁, s₁, hok₁, hlive₁, hdst₁, hbuf₁, hu₁, _, hgo⟩ :=
        netTransferBody_chunks (by rw [h.method]; exact hhead) henc hok hlive
          (show w.Willing Role.client.other from hserver) hu
      obtain ⟨w', he'⟩ :=
        trailers_bad body.trailers body.trailer hbad hok₁ hlive₁ hdst₁ hbuf₁ hu₁
      exact ⟨w', hgo _ _ he'⟩

end

end HttpProxy
