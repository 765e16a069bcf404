/-
  HttpProxy.Parse.Forms

  net_parse_req on every head that can be fetched.  A start line has one of three
  forms: CONNECT, an absolute URI, or a path with a Host field.  Each has its theorem
  (`parse_connect`, `parse_absolute`, `parse_origin`), and `netParseReq_inv` says that
  a request that is accepted has one of them.
-/

import HttpProxy.Parse.Fetched
import HttpProxy.Parse.RequestLine
import HttpProxy.System.Step

namespace HttpProxy

open Lib.Regex

/-- `net_parse_req` has accepted the head `data`, with this method, version, host and port. -/
structure Parsed (data : NetData) (req : NetReq) (method a b host : Bytes) (port : Option Bytes) :
    Prop where
  methodAt : req.data.buf.StrAt 0 method
  major : req.verMajor = atoi a
  minor : req.verMinor = atoi b
  hostAt : req.data.buf.StrAt req.host host
  portIs : req.port = portInt port
  table : req.data.table = data.table
  sound : req.data.buf.Sound

section

variable {data : NetData} {req req₁ : NetReq}
  {line method uri a b scheme auth path host rest text : Bytes} {port : Option Bytes}

-- ============================================================================
-- From the line to the host
-- ============================================================================

/-- The request line of a head is cut up. -/
theorem Fetched.line_parsed (h : Fetched line data)
    (hline : lineStr line = requestLine method uri a b) (hshape : RequestShape method uri a b) :
    ∃ req₁, LineParsed (netReqInit data) req₁ method uri a b ∧
      netParseReq (netReqInit data) =
        if method = bytesOf "CONNECT" then netParseHost { req₁ with host := req₁.path }
        else netParseUri req₁ := by
  have hat := h.lineAt.1
  rw [hline] at hat
  exact netParseReq_line hat h.sound hshape

/-- The request line and the end of the content. -/
theorem Fetched.line_lt (h : Fetched line data)
    (hline : lineStr line = requestLine method uri a b) :
    method.length + 1 + uri.length + 6 + a.length + 1 + b.length < data.buf.len := by
  have hle := lineStr_length line
  have hlt := h.lineAt.2
  rw [hline, requestLine_length] at hle
  omega

/-- Parsing the host finishes the request. -/
theorem HostParsed.parsed (h : HostParsed req₁ req host port rest)
    (hline : LineParsed (netReqInit data) req₁ method uri a b) (hlen : method.length < data.buf.len)
    (hhost : method.length < req₁.host) :
    Parsed data req method a b (hostText req₁ host port rest) port where
  methodAt := by
    refine h.frame 0 method hline.methodAt (.inl ?_) (.inr (.inl ?_))
    · rw [hline.len, Nat.zero_add]
      exact hlen
    · omega
  major := h.major.trans hline.major
  minor := h.minor.trans hline.minor
  hostAt := h.hostAt
  portIs := h.portIs
  table := h.table.trans hline.table
  sound := h.sound

-- ============================================================================
-- CONNECT
-- ============================================================================

theorem connect_host (h : Fetched line data)
    (hline : lineStr line = requestLine (bytesOf "CONNECT") uri a b)
    (hshape : RequestShape (bytesOf "CONNECT") uri a b) :
    ∃ req₁, LineParsed (netReqInit data) req₁ (bytesOf "CONNECT") uri a b ∧
      req₁.host = req₁.path ∧ netParseReq (netReqInit data) = netParseHost req₁ := by
  obtain ⟨req₁, hparsed, heq⟩ := h.line_parsed hline hshape
  rw [if_pos rfl] at heq
  exact ⟨{ req₁ with host := req₁.path },
    ⟨hparsed.pathIs, hparsed.table, hparsed.major, hparsed.minor, hparsed.methodAt, hparsed.uriAt,
      hparsed.sound, hparsed.len, hparsed.frame⟩, rfl, heq⟩

/-- `CONNECT uri HTTP/a.b`: the URI is taken for a host and a port. -/
theorem parse_connect (h : Fetched line data)
    (hline : lineStr line = requestLine (bytesOf "CONNECT") uri a b)
    (hshape : RequestShape (bytesOf "CONNECT") uri a b)
    (huri : uri = host ++ (portText port ++ rest)) (hhost : HostShape host port rest) :
    ∃ req, netParseReq (netReqInit data) = (req, 0) ∧
      Parsed data req (bytesOf "CONNECT") a b (if port = none then host ++ rest else host)
        port := by
  obtain ⟨req₁, hparsed, hpath, heq⟩ := connect_host h hline hshape
  have hlen := List.length_pos_iff.mpr hhost.hostNe
  have hlt := h.line_lt hline
  have hat := hparsed.uriAt
  rw [← hpath, huri] at hat
  have hne : req₁.host + host.length ≠ req₁.path := by omega
  obtain ⟨req, hreq, hdone⟩ := netParseHost_spec hat hparsed.sound hhost (.inr hne)
  have hres := hdone.parsed hparsed (by omega) (by rw [hpath, hparsed.pathIs]; omega)
  have htext : hostText req₁ host port rest = if port = none then host ++ rest else host := by
    rw [hostText]
    simp only [hne, ne_eq, not_false_eq_true, and_true]
  rw [htext] at hres
  exact ⟨req, heq.trans hreq, hres⟩

-- ============================================================================
-- Absolute URIs
-- ============================================================================

/-- What the host and the path of an absolute URI are parsed from. -/
theorem absolute_host (h : Fetched line data)
    (hline : lineStr line = requestLine method (uriText scheme auth path) a b)
    (hshape : RequestShape method (uriText scheme auth path) a b)
    (hconnect : method ≠ bytesOf "CONNECT") (huri : UriShape scheme auth path) :
    ∃ req₁ req₂, LineParsed (netReqInit data) req₁ method (uriText scheme auth path) a b ∧
      UriParsed req₁ req₂ scheme auth path ∧ netParseReq (netReqInit data) = netParseHost req₂ := by
  obtain ⟨req₁, hparsed, heq⟩ := h.line_parsed hline hshape
  rw [if_neg hconnect] at heq
  have hlt := h.line_lt hline
  obtain ⟨req₂, hsplit, hreq⟩ := netParseUri_absolute hparsed.uriAt hparsed.sound (by
    rw [hparsed.pathIs, hparsed.len, show (netReqInit data).data.buf.len = data.buf.len from rfl]
    omega) huri
  exact ⟨req₁, req₂, hparsed, hsplit, heq.trans hreq⟩

/-- Where the path follows the host directly, there is no port. -/
theorem path_not_port (huri : UriShape scheme auth path) (hhost : HostShape host port rest)
    (htext : auth ++ path = host ++ (portText port ++ rest)) (hlen : auth.length = host.length) :
    auth = host ∧ port = none := by
  obtain ⟨hauth, hpath⟩ := List.append_inj htext hlen
  refine ⟨hauth, ?_⟩
  cases port with
  | none => rfl
  | some p =>
      have hslash := huri.pathHead 58 (by rw [hpath]; rfl)
      exact absurd hslash (by decide)

/-- The host of an authority ends within it. -/
theorem host_le_auth (huri : UriShape scheme auth path) (hhost : HostShape host port rest)
    (htext : auth ++ path = host ++ (portText port ++ rest)) : host.length ≤ auth.length := by
  rcases List.append_eq_append_iff.mp htext with ⟨t, rfl, hpath⟩ | ⟨t, rfl, -⟩
  · cases t with
    | nil => simp
    | cons x t =>
        have hslash : x = 47 := huri.pathHead x (by rw [hpath]; rfl)
        have hchar := hhost.hostChars x (by simp)
        rw [hslash] at hchar
        exact absurd hchar (by decide)
  · rw [List.length_append]
    exact Nat.le_add_right _ _

/-- `METHOD scheme://authority[path] HTTP/a.b`: the host is cut off at a port, or copied where the
    path follows it; every string behind the line is kept. -/
theorem parse_absolute (h : Fetched line data)
    (hline : lineStr line = requestLine method (uriText scheme auth path) a b)
    (hshape : RequestShape method (uriText scheme auth path) a b)
    (hconnect : method ≠ bytesOf "CONNECT") (huri : UriShape scheme auth path)
    (htext : auth ++ path = host ++ (portText port ++ rest)) (hhost : HostShape host port rest) :
    ∃ req, netParseReq (netReqInit data) = (req, 0) ∧
      Parsed data req method a b
        (if port = none ∧ ¬ (auth = host ∧ path ≠ []) then host ++ rest else host) port ∧
      req.data.buf.StrAt req.path (if path = [] then [47] else path) ∧
      ∀ off s, data.buf.StrAt off s → off + s.length < data.buf.len → line.length < off →
        req.data.buf.StrAt off s := by
  obtain ⟨req₁, req₂, hparsed, hsplit, heq⟩ := absolute_host h hline hshape hconnect huri
  have hlt := h.line_lt hline
  rw [uriText_length] at hlt
  have hpathIs := hparsed.pathIs
  have hlen₁ : req₁.data.buf.len = data.buf.len := hparsed.len
  have hauthLen : auth.length + path.length =
      host.length + (portText port).length + rest.length := by
    have hlens := congrArg List.length htext
    simp only [List.length_append] at hlens
    omega
  have hfollows : req₂.host + host.length = req₂.path ↔ auth = host ∧ path ≠ [] := by
    rw [hsplit.pathIs, hsplit.hostIs]
    by_cases hnil : path = []
    · rw [if_pos hnil]
      refine ⟨fun heq => ?_, fun hne => absurd hnil hne.2⟩
      rw [hnil, List.length_nil] at hauthLen
      omega
    · rw [if_neg hnil]
      refine ⟨fun heq => ?_, fun hauth => by rw [hauth.1]⟩
      exact ⟨(path_not_port huri hhost htext (by omega)).1, hnil⟩
  have hport : port = none ∨ req₂.host + host.length ≠ req₂.path := by
    by_cases hat : req₂.host + host.length = req₂.path
    · have hauth := hfollows.mp hat
      exact .inl (path_not_port huri hhost htext (by rw [hauth.1])).2
    · exact .inr hat
  have hat := hsplit.hostAt
  rw [htext] at hat
  obtain ⟨req, hreq, hdone⟩ := netParseHost_spec hat hsplit.sound hhost hport
  have hstr : hostText req₂ host port rest =
      if port = none ∧ ¬ (auth = host ∧ path ≠ []) then host ++ rest else host := by
    rw [hostText]
    simp only [ne_eq, hfollows]
  refine ⟨req, heq.trans hreq, ?_, ?_, fun off s hs hin hoff => ?_⟩
  · rw [← hstr]
    refine ⟨?_, hdone.major.trans (hsplit.major.trans hparsed.major),
      hdone.minor.trans (hsplit.minor.trans hparsed.minor), hdone.hostAt, hdone.portIs,
      hdone.table.trans (hsplit.table.trans hparsed.table), hdone.sound⟩
    have hmethod := hsplit.frame 0 method hparsed.methodAt (by omega) (.inl (by omega))
    have hlen₂ := hsplit.len
    exact hdone.frame 0 method hmethod (.inl (by omega))
      (.inr (.inl (by rw [hsplit.hostIs]; omega)))
  · rw [hdone.path]
    have hpathAt := hsplit.pathAt
    have hpathOff := hsplit.pathIs
    have hhostOff := hsplit.hostIs
    refine hdone.frame _ _ hpathAt ?_ ?_
    · by_cases hnil : path = []
      · exact .inr fun hat => (hfollows.mp hat).2 hnil
      · rw [if_neg hnil] at hpathOff ⊢
        have hlen₂ := hsplit.len
        exact .inl (by omega)
    · by_cases hnone : port = none
      · exact .inl hnone
      · have hle := host_le_auth huri hhost htext
        have hne : auth.length ≠ host.length := fun hlen =>
          hnone (path_not_port huri hhost htext hlen).2
        refine .inr (.inr ?_)
        rw [hpathOff]
        split <;> omega
  · have hle := lineStr_length line
    rw [hline, requestLine_length, uriText_length] at hle
    have hs₁ := hparsed.frame off s hs (by rw [requestLine_length, uriText_length]; omega)
    have hs₂ := hsplit.frame off s hs₁ (by omega) (.inr (by omega))
    have hlen₂ := hsplit.len
    refine hdone.frame off s hs₂ (.inl (by omega)) (.inr (.inr ?_))
    rw [hsplit.hostIs]
    omega

-- ============================================================================
-- Paths
-- ============================================================================

/-- The host of a request without an absolute URI is looked up in the table. -/
theorem origin_host (h : Fetched line data) (hline : lineStr line = requestLine method uri a b)
    (hshape : RequestShape method uri a b) (hconnect : method ≠ bytesOf "CONNECT")
    (huri : exec uriPatt uri = none) :
    ∃ req₁, LineParsed (netReqInit data) req₁ method uri a b ∧
      netParseReq (netReqInit data) =
        match netDataGetEntOffset data (bytesOf "Host") with
        | none => (req₁, -1)
        | some host => netParseHost { req₁ with host, protocol := -1 } := by
  obtain ⟨req₁, hparsed, heq⟩ := h.line_parsed hline hshape
  have htable : netDataGetEntOffset req₁.data (bytesOf "Host") =
      netDataGetEntOffset data (bytesOf "Host") :=
    netDataGetEntOffset_table hparsed.table
  rw [if_neg hconnect, netParseUri_origin (by rw [hparsed.uriAt.str]; exact huri), htable] at heq
  exact ⟨req₁, hparsed, heq⟩

/-- `METHOD path HTTP/a.b` with a Host field: its value is cut off at a port, and every other
    string behind the line is kept. -/
theorem parse_origin (h : Fetched line data) (hline : lineStr line = requestLine method uri a b)
    (hshape : RequestShape method uri a b) (hconnect : method ≠ bytesOf "CONNECT")
    (huri : exec uriPatt uri = none) {off : Nat}
    (hfield : netDataGetEntOffset data (bytesOf "Host") = some off)
    (htext : data.buf.str off = host ++ (portText port ++ rest))
    (hhost : HostShape host port rest) :
    ∃ req, netParseReq (netReqInit data) = (req, 0) ∧
      Parsed data req method a b (if port = none then host ++ rest else host) port ∧
      req.data.buf.StrAt req.path uri ∧ req.host = off ∧
      ∀ off' s, data.buf.StrAt off' s → line.length < off' →
        (port = none ∨ off' + s.length < off + host.length ∨ off + host.length < off') →
        req.data.buf.StrAt off' s := by
  obtain ⟨req₁, hparsed, heq⟩ := origin_host h hline hshape hconnect huri
  obtain ⟨hoff, v, hv, hin⟩ := h.lookup hfield
  rw [hfield] at heq
  have hlt := h.line_lt hline
  have hle := lineStr_length line
  rw [hline, requestLine_length] at hle
  have hpathIs := hparsed.pathIs
  have hlenHost := List.length_pos_iff.mpr hhost.hostNe
  have hat := hparsed.frame off v hv (by rw [requestLine_length]; omega)
  rw [← hv.str, htext] at hat
  have hne : off + host.length ≠ req₁.path := by omega
  -- the host is where the field's value is
  obtain ⟨req, hreq, hdone⟩ : ∃ req,
      netParseHost { req₁ with host := off, protocol := -1 } = (req, 0) ∧
      HostParsed { req₁ with host := off, protocol := -1 } req host port rest :=
    netParseHost_spec hat hparsed.sound hhost (.inr hne)
  have hstr : hostText { req₁ with host := off, protocol := -1 } host port rest =
      if port = none then host ++ rest else host := by
    rw [hostText]
    simp only [hne, ne_eq, not_false_eq_true, and_true]
  have hkept : LineParsed (netReqInit data) { req₁ with host := off, protocol := -1 }
      method uri a b :=
    ⟨hparsed.pathIs, hparsed.table, hparsed.major, hparsed.minor, hparsed.methodAt, hparsed.uriAt,
      hparsed.sound, hparsed.len, hparsed.frame⟩
  have hres := hdone.parsed hkept (by omega) (show method.length < off by omega)
  rw [hstr] at hres
  refine ⟨req, heq.trans hreq, hres, ?_, hdone.hostIs hne, fun off' s hs hoff' hout => ?_⟩
  · rw [hdone.path]
    exact hdone.frame _ _ hparsed.uriAt (.inr hne)
      (.inr (.inl (show req₁.path + uri.length < off + host.length by omega)))
  · have hs₁ := hparsed.frame off' s hs (by rw [requestLine_length]; omega)
    exact hdone.frame off' s hs₁ (.inr hne) hout

-- ============================================================================
-- Every form
-- ============================================================================

/-- The text the host and the port of a request are read from: the URI of CONNECT, the authority
    of an absolute URI, or the value of the Host field. -/
inductive Authority (line : Bytes) (data : NetData) (method a b : Bytes) : Bytes → Prop where
  | connect {uri : Bytes} : lineStr line = requestLine method uri a b →
      RequestShape method uri a b → method = bytesOf "CONNECT" → Authority line data method a b uri
  | absolute {scheme auth path : Bytes} :
      lineStr line = requestLine method (uriText scheme auth path) a b →
      RequestShape method (uriText scheme auth path) a b → method ≠ bytesOf "CONNECT" →
      UriShape scheme auth path → Authority line data method a b auth
  | origin {uri v : Bytes} : lineStr line = requestLine method uri a b →
      RequestShape method uri a b → method ≠ bytesOf "CONNECT" → exec uriPatt uri = none →
      netDataGetEnt data (bytesOf "Host") = some v → Authority line data method a b v

/-- A host is found again when a path follows it. -/
theorem HostShape.extend (h : HostShape host port rest) (hpath : ∀ x ∈ path.head?, x = 47) :
    HostShape host port (rest ++ path) := by
  have hhead (p : UInt8 → Bool) (hslash : p 47 = false) (hrest : ∀ x ∈ rest.head?, p x = false) :
      ∀ x ∈ (rest ++ path).head?, p x = false := by
    cases rest with
    | nil =>
        intro x hx
        rw [hpath x hx]
        exact hslash
    | cons y rest => exact hrest
  cases h with
  | noPort hne hchars hrest hnone =>
      refine .noPort hne hchars (hhead _ (by decide) hrest) fun v hv x hx => ?_
      cases rest with
      | nil => exact absurd (hpath 58 (by rw [← List.nil_append path, hv]; rfl)) (by decide)
      | cons y r =>
          obtain ⟨rfl, rfl⟩ := List.cons.inj hv
          cases r with
          | nil =>
              rw [hpath x hx]
              decide
          | cons z r => exact hnone _ rfl x hx
  | port hne hchars hdigits hrest => exact .port hne hchars hdigits (hhead _ (by decide) hrest)

/-- A request whose authority starts with a host is accepted. -/
theorem parse_authority {auth : Bytes} (h : Fetched line data)
    (hauth : Authority line data method a b auth) (htext : auth = host ++ (portText port ++ rest))
    (hhost : HostShape host port rest) :
    ∃ req str, netParseReq (netReqInit data) = (req, 0) ∧ Parsed data req method a b str port ∧
      (port ≠ none ∨ rest = [] → str = host) ∧ (port = none → ∃ t, str = host ++ (rest ++ t)) := by
  have hplain : (port ≠ none ∨ rest = [] → (if port = none then host ++ rest else host) = host) ∧
      (port = none → ∃ t, (if port = none then host ++ rest else host) = host ++ (rest ++ t)) := by
    refine ⟨fun hcut => ?_, fun hnone => ⟨[], ?_⟩⟩
    · split
      · rename_i hnone
        rw [hcut.resolve_left (fun hne => hne hnone), List.append_nil]
      · rfl
    · rw [if_pos hnone, List.append_nil]
  cases hauth with
  | connect hline hshape hconnect =>
      subst hconnect
      obtain ⟨req, hreq, hparsed⟩ := parse_connect h hline hshape htext hhost
      exact ⟨req, _, hreq, hparsed, hplain⟩
  | origin hline hshape hconnect huri hfield =>
      obtain ⟨off, hoff, hv⟩ := Option.map_eq_some_iff.mp hfield
      obtain ⟨req, hreq, hparsed, -⟩ :=
        parse_origin h hline hshape hconnect huri hoff (hv.trans htext) hhost
      exact ⟨req, _, hreq, hparsed, hplain⟩
  | @absolute scheme _ path hline hshape hconnect huri =>
      have hall : auth ++ path = host ++ (portText port ++ (rest ++ path)) := by
        rw [htext]
        simp only [List.append_assoc]
      obtain ⟨req, hreq, hparsed, -⟩ :=
        parse_absolute h hline hshape hconnect huri hall (hhost.extend huri.pathHead)
      refine ⟨req, _, hreq, hparsed, fun hcut => ?_, fun hnone => ?_⟩
      · split
        · rename_i hin
          obtain rfl := hcut.resolve_left (fun hne => hne hin.1)
          rw [hin.1, portText, List.append_nil, List.append_nil] at htext
          have hnil : path = [] := Classical.not_not.mp fun hne => hin.2 ⟨htext, hne⟩
          rw [hnil, List.append_nil, List.append_nil]
        · rfl
      · split
        · exact ⟨path, rfl⟩
        · rename_i hin
          have hauth : auth = host ∧ path ≠ [] :=
            Classical.not_not.mp fun hne => hin ⟨hnone, hne⟩
          rw [hnone, portText, List.nil_append] at htext
          have hnil : rest = [] := by
            rw [hauth.1] at htext
            exact List.self_eq_append_right.mp htext
          exact ⟨[], by rw [hnil]; simp⟩

/-- A request whose authority starts with another character is refused. -/
theorem authority_refused {auth : Bytes} (h : Fetched line data)
    (hauth : Authority line data method a b auth) (hhead : ∀ x ∈ auth.head?, hostChar x = false) :
    ∃ r, netParseReq (netReqInit data) = (r, -1) := by
  have hnone := hostPatt_none hhead
  cases hauth with
  | connect hline hshape hconnect =>
      subst hconnect
      obtain ⟨req₁, hparsed, hpath, heq⟩ := connect_host h hline hshape
      rw [netParseHost_none (by rw [hpath, hparsed.uriAt.str]; exact hnone)] at heq
      exact ⟨req₁, heq⟩
  | @absolute scheme _ path hline hshape hconnect huri =>
      obtain ⟨req₁, req₂, hparsed, hsplit, heq⟩ := absolute_host h hline hshape hconnect huri
      have hall : exec hostPatt (auth ++ path) = none := by
        apply hostPatt_none
        rw [List.head?_append_of_ne_nil _ huri.authNe]
        exact hhead
      rw [netParseHost_none (by rw [hsplit.hostAt.str]; exact hall)] at heq
      exact ⟨req₂, heq⟩
  | origin hline hshape hconnect huri hfield =>
      obtain ⟨req₁, hparsed, heq⟩ := origin_host h hline hshape hconnect huri
      obtain ⟨off, hoff, hv⟩ := Option.map_eq_some_iff.mp hfield
      obtain ⟨hlt, v, hvAt, -⟩ := h.lookup hoff
      have hle := lineStr_length line
      rw [hline] at hle
      have hat := (hparsed.frame off v hvAt (by omega)).str
      rw [hvAt.str] at hv
      rw [hoff] at heq
      refine ⟨_, heq.trans (netParseHost_none ?_)⟩
      rw [← hnone, ← hv]
      exact congrArg _ hat

/-- A request that is accepted has an authority. -/
theorem authority_of_accepted (h : Fetched line data)
    (hreq : netParseReq (netReqInit data) = (req, 0)) :
    ∃ method a b auth, Authority line data method a b auth := by
  have hat := h.lineAt.1
  cases hexec : exec reqPatt (lineStr line) with
  | none =>
      have hnone : netParseReq (netReqInit data) = (netReqInit data, -1) :=
        netParseReq_none (by rw [← hexec]; exact congrArg _ hat.str)
      exact absurd (Prod.mk.inj (hreq.symm.trans hnone)).2 (by decide)
  | some res =>
      obtain ⟨method, uri, a, b, hline, hshape⟩ := reqPatt_shape hexec
      by_cases hconnect : method = bytesOf "CONNECT"
      · exact ⟨method, a, b, uri, .connect hline hshape hconnect⟩
      cases hmatch : exec uriPatt uri with
      | some res' =>
          obtain ⟨scheme, auth, path, rfl, huri⟩ := uriPatt_shape hmatch
          exact ⟨method, a, b, auth, .absolute hline hshape hconnect huri⟩
      | none =>
          cases hfield : netDataGetEnt data (bytesOf "Host") with
          | some v => exact ⟨method, a, b, v, .origin hline hshape hconnect hmatch hfield⟩
          | none =>
              obtain ⟨req₁, -, heq⟩ := origin_host h hline hshape hconnect hmatch
              rw [Option.map_eq_none_iff.mp hfield, hreq] at heq
              exact absurd (Prod.mk.inj heq).2 (by decide)

/-- A request that is accepted has an authority that starts with a host. -/
theorem netParseReq_inv (h : Fetched line data) (hreq : netParseReq (netReqInit data) = (req, 0)) :
    ∃ method a b auth host port rest, Authority line data method a b auth ∧
      auth = host ++ (portText port ++ rest) ∧ HostShape host port rest := by
  obtain ⟨method, a, b, auth, hauth⟩ := authority_of_accepted h hreq
  rcases hostShape_total auth with hhead | ⟨host, port, rest, htext, hhost⟩
  · obtain ⟨r, hr⟩ := authority_refused h hauth hhead
    rw [hreq] at hr
    exact absurd (Prod.mk.inj hr).2 (by decide)
  · exact ⟨method, a, b, auth, host, port, rest, hauth, htext, hhost⟩

end

end HttpProxy
