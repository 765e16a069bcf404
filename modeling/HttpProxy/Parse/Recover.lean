/-
  HttpProxy.Parse.Recover

  net_parse_req finds the parts a start line was written from (`request_recovered`):
  the method, the host, the port, the version and the path, for an absolute URI, for a
  path with a Host field, and for CONNECT, whatever else is in the buffer.
-/

import HttpProxy.Parse.Forms

namespace HttpProxy

open Lib.Regex

-- ============================================================================
-- The parts
-- ============================================================================

/-- The port a server is asked for. -/
def portNum : Option Bytes → Int
  | none => HTTP_DEFAULT_PORT
  | some port => digitsVal 10 port

/-- A decimal port. -/
def PortOk (port : Option Bytes) : Prop := ∀ p ∈ port, Digits p ∧ digitsVal 10 p < 65536

/-- The one field named Host of a head has this value. -/
def HostField (data : NetData) (v : Bytes) : Prop :=
  ∃ e, data.table.filter (·.hasKey (bytesOf "Host")) = [e] ∧ data.buf.str e.valOffset = v

/-- The start lines that ask for these parts. -/
inductive Asks (data : NetData) (method a b host : Bytes) (port path : Option Bytes) :
    (line : Bytes) → Prop where
  | absolute {scheme : Bytes} : method ≠ bytesOf "CONNECT" → scheme ≠ [] →
      (∀ x ∈ scheme, isLower x = true) → Asks data method a b host port path
        (requestLine method (uriText scheme (host ++ portText port) (path.getD [])) a b)
  | origin {p : Bytes} : method ≠ bytesOf "CONNECT" → path = some p →
      HostField data (host ++ portText port) →
      Asks data method a b host port path (requestLine method p a b)
  | connect : method = bytesOf "CONNECT" → port ≠ none →
      Asks data method a b host port path (requestLine method (host ++ portText port) a b)

section

variable {data : NetData} {line method a b scheme host path : Bytes} {port : Option Bytes}

theorem portInt_eq (h : PortOk port) : portInt port = portNum port := by
  cases port with
  | none => rfl
  | some p =>
      have hlt := (h p rfl).2
      rw [portInt, portNum, Nat.min_eq_left (by omega), toInt32_of_lt (by omega) (by omega)]

/-- A number below 2^31 is read back by `atoi`. -/
theorem atoi_small (h : Digits a) (hlt : digitsVal 10 a < 2 ^ 31) : atoi a = digitsVal 10 a := by
  rw [atoi_digits h, Nat.min_eq_left (by omega), toInt32_of_lt (by omega) (by omega)]

theorem authority_char (hhost : ∀ x ∈ host, hostChar x = true) (hport : PortOk port) :
    ∀ x ∈ host ++ portText port, authChar x = true := by
  intro x hx
  rcases List.mem_append.mp hx with hx | hx
  · rw [authChar, hhost x hx, Bool.true_or]
  · cases port with
    | none => exact absurd hx List.not_mem_nil
    | some p =>
        rcases List.mem_cons.mp hx with rfl | hx
        · decide
        · have hdigit := (hport p rfl).1.2 x hx
          simp [authChar, hostChar, hdigit]

theorem lineStr_uri {uri : Bytes} (hline : lineStr line = requestLine method uri a b) :
    0 ∉ uri := by
  have hnul := lineStr_nul line
  rw [hline] at hnul
  intro hmem
  apply hnul
  simp [requestLine, hmem]

theorem uriText_path {auth : Bytes} (h : 0 ∉ uriText scheme auth path) : 0 ∉ path := by
  intro hmem
  apply h
  simp [uriText, hmem]

/-- A host and a port are found again in front of a path. -/
theorem hostShape_path (hne : host ≠ []) (hhost : ∀ x ∈ host, hostChar x = true)
    (hport : PortOk port) (hpath : ∀ x ∈ path.head?, x = 47) : HostShape host port path := by
  have hshape : HostShape host port [] := by
    cases port with
    | none =>
        refine .noPort hne hhost (fun x hx => absurd hx (by simp)) fun v hv => ?_
        exact absurd hv (by simp)
    | some p => exact .port hne hhost (hport p rfl).1 fun x hx => absurd hx (by simp)
  have hext := hshape.extend hpath
  rwa [List.nil_append] at hext

theorem HostField.ent {v : Bytes} (h : HostField data v) :
    netDataGetEnt data (bytesOf "Host") = some v := by
  obtain ⟨e, he, hv⟩ := h
  have hmem : e ∈ data.table ∧ e.hasKey (bytesOf "Host") = true :=
    List.mem_filter.mp (by rw [he]; exact List.mem_singleton_self e)
  have hfind : data.findStr (bytesOf "Host") = some e := by
    apply NetData.findStr_one hmem.1 hmem.2
    intro x hx hkey
    have hin : x ∈ data.table.filter (·.hasKey (bytesOf "Host")) := List.mem_filter.mpr ⟨hx, hkey⟩
    rw [he] at hin
    exact List.mem_singleton.mp hin
  rw [netDataGetEnt, netDataGetEntOffset, hfind, Option.map_some, Option.map_some, hv]

-- ============================================================================
-- Each form
-- ============================================================================

/-- What `net_parse_req` finds behind an absolute URI; every string behind the line is kept. -/
theorem recover_absolute (h : Fetched line data)
    (hline : lineStr line = requestLine method (uriText scheme (host ++ portText port) path) a b)
    (hm : method ≠ []) (hmethod : ∀ x ∈ method, isAlpha x = true)
    (hconnect : method ≠ bytesOf "CONNECT") (hs : scheme ≠ [])
    (hscheme : ∀ x ∈ scheme, isLower x = true) (hne : host ≠ [])
    (hhost : ∀ x ∈ host, hostChar x = true) (hport : PortOk port)
    (hpath : ∀ x ∈ path.head?, x = 47) (ha : Digits a) (hb : Digits b) :
    ∃ req, netParseReq (netReqInit data) = (req, 0) ∧ Parsed data req method a b host port ∧
      req.data.buf.StrAt req.path (if path = [] then [47] else path) ∧
      ∀ off s, data.buf.StrAt off s → off + s.length < data.buf.len → line.length < off →
        req.data.buf.StrAt off s := by
  have hauth : host ++ portText port ≠ [] := List.append_ne_nil_of_left_ne_nil hne _
  have hnul := lineStr_uri hline
  have huri : UriShape scheme (host ++ portText port) path :=
    ⟨hs, hscheme, hauth, authority_char hhost hport, hpath, uriText_path hnul⟩
  have hshape : RequestShape method (uriText scheme (host ++ portText port) path) a b :=
    ⟨hm, hmethod, List.append_ne_nil_of_left_ne_nil hs _, hnul, ha, hb⟩
  obtain ⟨req, hreq, hparsed, hpathAt, hframe⟩ := parse_absolute h hline hshape hconnect huri
    (List.append_assoc host (portText port) path) (hostShape_path hne hhost hport hpath)
  have hstr : (if port = none ∧ ¬ (host ++ portText port = host ∧ path ≠ []) then host ++ path
      else host) = host := by
    split
    · rename_i hnone
      rw [hnone.1, portText, List.append_nil] at hnone
      have hnil : path = [] := Classical.not_not.mp fun hp => hnone.2 ⟨rfl, hp⟩
      rw [hnil, List.append_nil]
    · rfl
  rw [hstr] at hparsed
  exact ⟨req, hreq, hparsed, hpathAt, hframe⟩

/-- A path is not taken for an absolute URI. -/
theorem uriPatt_path (hpath : path.head? = some 47) : exec uriPatt path = none := by
  cases hexec : exec uriPatt path with
  | none => rfl
  | some res =>
      obtain ⟨scheme, auth, rest, rfl, huri⟩ := uriPatt_shape hexec
      rw [uriText, List.head?_append_of_ne_nil _ huri.schemeNe] at hpath
      have hlower := huri.schemeLower 47 (List.mem_of_mem_head? hpath)
      exact absurd hlower (by decide)

/-- What `net_parse_req` finds behind a path, with the host in a field. -/
theorem recover_origin (h : Fetched line data) (hline : lineStr line = requestLine method path a b)
    (hm : method ≠ []) (hmethod : ∀ x ∈ method, isAlpha x = true)
    (hconnect : method ≠ bytesOf "CONNECT") (hpath : path.head? = some 47)
    (hfield : netDataGetEnt data (bytesOf "Host") = some (host ++ portText port)) (hne : host ≠ [])
    (hhost : ∀ x ∈ host, hostChar x = true) (hport : PortOk port) (ha : Digits a)
    (hb : Digits b) :
    ∃ req, netParseReq (netReqInit data) = (req, 0) ∧ Parsed data req method a b host port ∧
      req.data.buf.StrAt req.path path := by
  have hshape : RequestShape method path a b := by
    refine ⟨hm, hmethod, ?_, lineStr_uri hline, ha, hb⟩
    rintro rfl
    exact absurd hpath (by simp)
  obtain ⟨off, hoff, hv⟩ := Option.map_eq_some_iff.mp hfield
  have htext : data.buf.str off = host ++ (portText port ++ []) := by
    rw [hv, List.append_nil]
  obtain ⟨req, hreq, hparsed, hpathAt, -⟩ := parse_origin h hline hshape hconnect
    (uriPatt_path hpath) hoff htext (hostShape_path hne hhost hport (by simp))
  have hstr : (if port = none then host ++ [] else host) = host := by
    split <;> simp
  rw [hstr] at hparsed
  exact ⟨req, hreq, hparsed, hpathAt⟩

/-- What `net_parse_req` finds behind CONNECT. -/
theorem recover_connect (h : Fetched line data)
    (hline : lineStr line = requestLine (bytesOf "CONNECT") (host ++ portText port) a b)
    (hne : host ≠ []) (hhost : ∀ x ∈ host, hostChar x = true) (hport : PortOk port)
    (ha : Digits a) (hb : Digits b) :
    ∃ req, netParseReq (netReqInit data) = (req, 0) ∧
      Parsed data req (bytesOf "CONNECT") a b host port := by
  have hshape : RequestShape (bytesOf "CONNECT") (host ++ portText port) a b :=
    ⟨by decide, by simp [bytesOf, isAlpha, isUpper, isLower],
      List.append_ne_nil_of_left_ne_nil hne _, lineStr_uri hline, ha, hb⟩
  have htext : host ++ portText port = host ++ (portText port ++ []) := by
    rw [List.append_nil]
  obtain ⟨req, hreq, hparsed⟩ :=
    parse_connect h hline hshape htext (hostShape_path hne hhost hport (by simp))
  have hstr : (if port = none then host ++ [] else host) = host := by
    split <;> simp
  rw [hstr] at hparsed
  exact ⟨req, hreq, hparsed⟩

-- ============================================================================
-- Every form
-- ============================================================================

/-- `net_parse_req` finds the parts a start line asks for, whatever header block follows it. -/
theorem request_recovered {path : Option Bytes} (h : Fetched line data)
    (hasks : Asks data method a b host port path (lineStr line)) (hm : method ≠ [])
    (hmethod : ∀ x ∈ method, isAlpha x = true) (hne : host ≠ [])
    (hhost : ∀ x ∈ host, hostChar x = true)
    (hport : ∀ p ∈ port, Digits p ∧ 1 ≤ digitsVal 10 p ∧ digitsVal 10 p ≤ 65535)
    (hpath : ∀ p ∈ path, p.head? = some 47) (ha : Digits a) (hb : Digits b)
    (hmajor : digitsVal 10 a < 2 ^ 31) (hminor : digitsVal 10 b < 2 ^ 31) :
    ∃ req, netParseReq (netReqInit data) = (req, 0) ∧
      req.data.buf.str 0 = method ∧ req.data.buf.str req.host = host ∧
      req.port = portNum port ∧ req.verMajor = digitsVal 10 a ∧ req.verMinor = digitsVal 10 b ∧
      (method ≠ bytesOf "CONNECT" → req.data.buf.str req.path = path.getD (bytesOf "/")) := by
  have hportOk : PortOk port := fun p hp => by
    obtain ⟨hdigits, -, hhi⟩ := hport p hp
    exact ⟨hdigits, by omega⟩
  have hparts {req : NetReq} (hparsed : Parsed data req method a b host port) :
      req.data.buf.str 0 = method ∧ req.data.buf.str req.host = host ∧ req.port = portNum port ∧
        req.verMajor = digitsVal 10 a ∧ req.verMinor = digitsVal 10 b :=
    ⟨hparsed.methodAt.str, hparsed.hostAt.str, hparsed.portIs.trans (portInt_eq hportOk),
      hparsed.major.trans (atoi_small ha hmajor), hparsed.minor.trans (atoi_small hb hminor)⟩
  generalize hstr : lineStr line = str at hasks
  cases hasks with
  | absolute hconnect hs hscheme =>
      have hhead : ∀ x ∈ (path.getD []).head?, x = 47 := by
        intro x hx
        cases path with
        | none => exact absurd hx (by simp)
        | some p =>
            have hslash := hpath p rfl
            rw [Option.getD_some, hslash] at hx
            exact (Option.some.inj hx).symm
      obtain ⟨req, hreq, hparsed, hpathAt, -⟩ := recover_absolute h hstr hm hmethod hconnect hs
        hscheme hne hhost hportOk hhead ha hb
      obtain ⟨hmethodIs, hhostIs, hportIs, hmajorIs, hminorIs⟩ := hparts hparsed
      refine ⟨req, hreq, hmethodIs, hhostIs, hportIs, hmajorIs, hminorIs, fun _ => ?_⟩
      rw [hpathAt.str]
      cases path with
      | none => rfl
      | some p =>
          have hp : p ≠ [] := by
            rintro rfl
            exact absurd (hpath [] rfl) (by simp)
          rw [Option.getD_some, Option.getD_some, if_neg hp]
  | @origin p hconnect hp hfield =>
      obtain ⟨req, hreq, hparsed, hpathAt⟩ := recover_origin h hstr hm hmethod hconnect
        (hpath p hp) hfield.ent hne hhost hportOk ha hb
      obtain ⟨hmethodIs, hhostIs, hportIs, hmajorIs, hminorIs⟩ := hparts hparsed
      refine ⟨req, hreq, hmethodIs, hhostIs, hportIs, hmajorIs, hminorIs, fun _ => ?_⟩
      rw [hpathAt.str, hp, Option.getD_some]
  | connect hconnect _ =>
      rw [hconnect] at hstr
      obtain ⟨req, hreq, hparsed⟩ := recover_connect h hstr hne hhost hportOk ha hb
      rw [← hconnect] at hparsed
      obtain ⟨hmethodIs, hhostIs, hportIs, hmajorIs, hminorIs⟩ := hparts hparsed
      exact ⟨req, hreq, hmethodIs, hhostIs, hportIs, hmajorIs, hminorIs,
        fun hne => absurd hconnect hne⟩

end

/-- `GET http://a:81/b HTTP/1.1` -/
def getLine : Bytes :=
  requestLine (bytesOf "GET")
    (uriText (bytesOf "http") (bytesOf "a" ++ portText (some (bytesOf "81")))
    (bytesOf "/b")) (bytesOf "1") (bytesOf "1")

theorem request_recovered_get :
    ∃ req, netParseReq (netReqInit ((netDataInit zeroHeap).addLine getLine)) = (req, 0) ∧
    req.data.buf.str 0 = bytesOf "GET" ∧ req.data.buf.str req.host = bytesOf "a" ∧
    req.port = portNum (some (bytesOf "81")) ∧ req.verMajor = digitsVal 10 (bytesOf "1") ∧
    req.verMinor = digitsVal 10 (bytesOf "1") ∧
    (bytesOf "GET" ≠ bytesOf "CONNECT" → req.data.buf.str req.path = bytesOf "/b") := by
  have hasks : Asks ((netDataInit zeroHeap).addLine getLine) (bytesOf "GET") (bytesOf "1")
      (bytesOf "1") (bytesOf "a") (some (bytesOf "81")) (some (bytesOf "/b"))
      (lineStr getLine) := by
    rw [lineStr_eq (by decide)]
    exact .absolute (by decide) (by decide) (by simp [bytesOf, isLower])
  have hport : ∀ p ∈ some (bytesOf "81"), Digits p ∧ 1 ≤ digitsVal 10 p ∧
      digitsVal 10 p ≤ 65535 := by
    rintro p ⟨⟩
    exact ⟨⟨by decide, by simp [bytesOf, isDigit]⟩, by decide, by decide⟩
  have hone : Digits (bytesOf "1") := ⟨by decide, by simp [bytesOf, isDigit]⟩
  have hpath : ∀ p ∈ some (bytesOf "/b"), p.head? = some 47 := by
    rintro p ⟨⟩
    rfl
  exact request_recovered .start hasks (by decide) (by simp [bytesOf, isAlpha, isUpper, isLower])
    (by decide) (by simp [bytesOf, hostChar, isAlpha, isUpper, isLower]) hport hpath hone hone
    (by decide) (by decide)

end HttpProxy
