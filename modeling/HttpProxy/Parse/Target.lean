/-
  HttpProxy.Parse.Target

  Whether a request that is accepted has a host and a port that can be used.  The host
  pattern is anchored only at its start and the port is what atoi makes of the digits,
  so a request with anything behind its host but a port in range is accepted with a
  host or a port it does not name: `usableTarget_iff`.
-/

import HttpProxy.Parse.Forms

namespace HttpProxy

open Lib.Regex

/-- What `net_parse_req` promises of a head it accepts: the host consists of host characters, the
    port fits 16 bits, and a port that is given is the one that is used. -/
def UsableTarget (line : Bytes) (data : NetData) : Prop :=
  ∀ req, netParseReq (netReqInit data) = (req, 0) →
    req.data.buf.str req.host ≠ [] ∧ (∀ x ∈ req.data.buf.str req.host, hostChar x = true) ∧
    1 ≤ req.port ∧ req.port ≤ 65535 ∧
    ∀ method a b auth host port rest, Authority line data method a b auth →
      auth = host ++ (58 :: (port ++ rest)) → (∀ x ∈ host, hostChar x = true) → Digits port →
      (∀ x ∈ rest.head?, isDigit x = false) → req.port = digitsVal 10 port

/-- An authority that is refused, or is a host alone, or has a port between 1 and 65535 behind
    its host. -/
inductive GoodAuthority : Bytes → Prop where
  | refused {auth : Bytes} : (∀ x ∈ auth.head?, hostChar x = false) → GoodAuthority auth
  | host {auth : Bytes} : (∀ x ∈ auth, hostChar x = true) → GoodAuthority auth
  | port {host port rest : Bytes} : (∀ x ∈ host, hostChar x = true) → Digits port →
      (∀ x ∈ rest.head?, isDigit x = false) → 1 ≤ digitsVal 10 port → digitsVal 10 port ≤ 65535 →
      GoodAuthority (host ++ (58 :: (port ++ rest)))

section

variable {data : NetData} {req : NetReq} {line method a b auth host host' rest rest' : Bytes}
  {port port' : Option Bytes}

-- ============================================================================
-- One host for one text
-- ============================================================================

/-- A text has one host and one port. -/
theorem hostShape_unique (h : HostShape host port rest) (h' : HostShape host' port' rest')
    (htext : host ++ (portText port ++ rest) = host' ++ (portText port' ++ rest')) :
    host = host' ∧ port = port' ∧ rest = rest' := by
  have hexec := h.exec
  rw [htext, h'.exec, Option.some.injEq, List.cons.injEq, Prod.mk.injEq, Prod.mk.injEq] at hexec
  obtain ⟨⟨-, -, hall⟩, hcaps⟩ := hexec
  have hlen : host'.length = host.length := by
    cases port <;> cases port' <;> simp at hcaps <;> omega
  obtain ⟨rfl, htail⟩ := List.append_inj htext hlen.symm
  have hport : (portText port).length = (portText port').length := by
    rw [List.length_append, List.length_append] at hall
    omega
  obtain ⟨hports, hrest⟩ := List.append_inj htail hport
  refine ⟨rfl, ?_, hrest⟩
  cases port with
  | none =>
      cases port' with
      | none => rfl
      | some p => exact absurd hports (by simp [portText])
  | some p =>
      cases port' with
      | none => exact absurd hports (by simp [portText])
      | some p' => rw [(List.cons.inj hports).2]

/-- A good authority that starts with a host is that host, or has a port in range. -/
theorem GoodAuthority.shape (h : GoodAuthority auth)
    (htext : auth = host ++ (portText port ++ rest))
    (hhost : HostShape host port rest) :
    port = none ∧ rest = [] ∨ ∃ p, port = some p ∧ 1 ≤ digitsVal 10 p ∧ digitsVal 10 p ≤ 65535 := by
  obtain ⟨x, t, rfl⟩ := List.exists_cons_of_ne_nil hhost.hostNe
  have hx := hhost.hostChars x List.mem_cons_self
  cases h with
  | refused hhead =>
      have hfalse := hhead x (by rw [htext]; rfl)
      rw [hx] at hfalse
      exact absurd hfalse (by decide)
  | host hchars =>
      have hshape : HostShape auth none [] :=
        .noPort (by rw [htext]; simp) hchars (by simp) (noPort_of_head (by simp))
      obtain ⟨-, hport, hrest⟩ := hostShape_unique hhost hshape (by rw [← htext]; simp [portText])
      exact .inl ⟨hport, hrest⟩
  | @port host' p r hchars hdigits hr hlo hhi =>
      have hne : host' ≠ [] := by
        rintro rfl
        have hcolon : x = 58 := (List.cons.inj htext).1.symm
        rw [hcolon] at hx
        exact absurd hx (by decide)
      obtain ⟨-, hport, -⟩ := hostShape_unique hhost (.port hne hchars hdigits hr)
        (by rw [← htext]; rfl)
      exact .inr ⟨p, hport, hlo, hhi⟩

-- ============================================================================
-- The port
-- ============================================================================

/-- A number that is what `atoi` has made of it and fits 16 bits. -/
theorem portInt_range {p : Bytes} (hlo : 1 ≤ digitsVal 10 p) (hhi : digitsVal 10 p ≤ 65535) :
    portInt (some p) = digitsVal 10 p := by
  rw [portInt, Nat.min_eq_left (by omega), toInt32_of_lt (by omega) (by omega)]

theorem portInt_none : portInt none = 80 := rfl

-- ============================================================================
-- When the target can be used
-- ============================================================================

/-- A head whose authorities are good is accepted with a usable target, or not at all. -/
theorem usableTarget_of_good (h : Fetched line data)
    (hgood : ∀ method a b auth, Authority line data method a b auth → GoodAuthority auth) :
    UsableTarget line data := by
  intro req hreq
  -- whatever the authority is read as, the request is the one that was accepted
  have hrange {method a b auth host rest : Bytes} {port : Option Bytes}
      (hauth : Authority line data method a b auth) (htext : auth = host ++ (portText port ++ rest))
      (hhost : HostShape host port rest) :
      req.data.buf.str req.host = host ∧ req.port = portInt port ∧
        (∀ p ∈ port, 1 ≤ digitsVal 10 p ∧ digitsVal 10 p ≤ 65535) := by
    obtain ⟨req', str, hreq', hparsed, hcut, -⟩ := parse_authority h hauth htext hhost
    obtain ⟨rfl, -⟩ := Prod.mk.inj (hreq.symm.trans hreq')
    rcases (hgood _ _ _ _ hauth).shape htext hhost with ⟨rfl, hnil⟩ | ⟨p, rfl, hlo, hhi⟩
    · exact ⟨hparsed.hostAt.str.trans (hcut (.inr hnil)), hparsed.portIs, fun p hp => by cases hp⟩
    · refine ⟨hparsed.hostAt.str.trans (hcut (.inl (by simp))), hparsed.portIs, fun q hq => ?_⟩
      obtain rfl : p = q := Option.some.inj hq
      exact ⟨hlo, hhi⟩
  obtain ⟨method, a, b, auth, host, port, rest, hauth, htext, hhost⟩ := netParseReq_inv h hreq
  obtain ⟨hstr, hport, hin⟩ := hrange hauth htext hhost
  have hbounds : 1 ≤ req.port ∧ req.port ≤ 65535 := by
    cases port with
    | none =>
        rw [hport, portInt_none]
        decide
    | some p =>
        obtain ⟨hlo, hhi⟩ := hin p rfl
        rw [hport, portInt_range hlo hhi]
        omega
  refine ⟨?_, ?_, hbounds.1, hbounds.2, ?_⟩
  · rw [hstr]
    exact hhost.hostNe
  · rw [hstr]
    exact hhost.hostChars
  · intro method' a' b' auth' host' p rest' hauth' htext' hchars hdigits hstop
    by_cases hnil : host' = []
    · -- an authority that starts with a colon is refused
      rw [hnil, List.nil_append] at htext'
      obtain ⟨r, hr⟩ := authority_refused h hauth' (by
        rw [htext']
        rintro x hx
        rw [← Option.some.inj hx]
        decide)
      rw [hreq] at hr
      exact absurd (Prod.mk.inj hr).2 (by decide)
    · have hshape : HostShape host' (some p) rest' := .port hnil hchars hdigits hstop
      obtain ⟨-, hport', hin'⟩ := hrange hauth' (by exact htext') hshape
      obtain ⟨hlo, hhi⟩ := hin' p rfl
      rw [hport', portInt_range hlo hhi]

/-- An authority that is not good is accepted, and the target is not the one it names. -/
theorem UsableTarget.good (h : Fetched line data) (husable : UsableTarget line data)
    (hauth : Authority line data method a b auth) : GoodAuthority auth := by
  rcases hostShape_total auth with hhead | ⟨host, port, rest, htext, hhost⟩
  · exact .refused hhead
  obtain ⟨req, str, hreq, hparsed, hcut, hrest⟩ := parse_authority h hauth htext hhost
  obtain ⟨-, hchars, hlo, hhi, hnamed⟩ := husable req hreq
  cases hhost with
  | noPort hne hhost hstop _ =>
      -- text behind the host is still in the string
      obtain ⟨t, ht⟩ := hrest rfl
      have hnil : rest = [] := by
        cases rest with
        | nil => rfl
        | cons x r =>
            have hx := hchars x (by rw [hparsed.hostAt.str, ht]; simp)
            rw [hstop x rfl] at hx
            exact absurd hx (by decide)
      rw [htext, portText, hnil, List.append_nil, List.append_nil]
      exact .host hhost
  | port hne hhost hdigits hstop =>
      rename_i p
      have hvalue := hnamed method a b auth host p rest hauth htext hhost hdigits hstop
      rw [htext]
      exact .port hhost hdigits hstop (by omega) (by omega)

/-- Every head that can be fetched is accepted only with a usable target, exactly when its
    authority is good. -/
theorem usableTarget_iff (h : Fetched line data) :
    UsableTarget line data ↔
      ∀ method a b auth, Authority line data method a b auth → GoodAuthority auth := by
  constructor
  · intro husable method a b auth hauth
    exact husable.good h hauth
  · exact usableTarget_of_good h

end

-- ============================================================================
-- Two lines
-- ============================================================================

/-- A CONNECT line for `uri`. -/
def connectLine (uri : Bytes) : Bytes :=
  requestLine (bytesOf "CONNECT") uri (bytesOf "1") (bytesOf "1")

theorem connectLine_shape {uri : Bytes} (hne : uri ≠ []) (hnul : 0 ∉ uri) :
    RequestShape (bytesOf "CONNECT") uri (bytesOf "1") (bytesOf "1") where
  methodNe := by decide
  methodAlpha := by simp [bytesOf, isAlpha, isUpper, isLower]
  uriNe := hne
  uriNul := hnul
  major := ⟨by decide, by simp [bytesOf, isDigit]⟩
  minor := ⟨by decide, by simp [bytesOf, isDigit]⟩

theorem connectLine_str {uri : Bytes} (hnul : 0 ∉ uri) :
    lineStr (connectLine uri) = connectLine uri := by
  apply lineStr_eq
  simp only [connectLine, requestLine, List.mem_append, not_or]
  exact ⟨by decide, by decide, hnul, by decide, by decide, by decide, by decide⟩

/-- The authority of a CONNECT line is its URI. -/
theorem connectLine_authority {uri method a b auth : Bytes} {data : NetData} (hne : uri ≠ [])
    (hnul : 0 ∉ uri) (h : Authority (connectLine uri) data method a b auth) : auth = uri := by
  have hshape := connectLine_shape hne hnul
  have hinj {method' uri' a' b' : Bytes}
      (hline : lineStr (connectLine uri) = requestLine method' uri' a' b')
      (hshape' : RequestShape method' uri' a' b') : bytesOf "CONNECT" = method' ∧ uri = uri' := by
    rw [connectLine_str hnul] at hline
    obtain ⟨hm, hu, -⟩ := requestLine_inj hshape hshape' hline
    exact ⟨hm, hu⟩
  cases h with
  | connect hline hshape' _ => exact (hinj hline hshape').2.symm
  | absolute hline hshape' hne' _ => exact absurd (hinj hline hshape').1.symm hne'
  | origin hline hshape' hne' _ _ => exact absurd (hinj hline hshape').1.symm hne'

/-- "CONNECT a:443 HTTP/1.1" is accepted with a usable target. -/
theorem usableTarget_443 :
    (netParseReq (netReqInit
      ((netDataInit zeroHeap).addLine (connectLine (bytesOf "a:443"))))).2 = 0 ∧
    UsableTarget (connectLine (bytesOf "a:443"))
      ((netDataInit zeroHeap).addLine (connectLine (bytesOf "a:443"))) := by
  have haccepted : (netParseReq (netReqInit
      ((netDataInit zeroHeap).addLine (connectLine (bytesOf "a:443"))))).2 = 0 := by
    decide +kernel
  refine ⟨haccepted, (usableTarget_iff .start).mpr fun method a b auth hauth => ?_⟩
  rw [connectLine_authority (by decide) (by decide) hauth]
  show GoodAuthority (bytesOf "a" ++ (58 :: (bytesOf "443" ++ [])))
  exact .port (by simp [bytesOf, hostChar, isAlpha, isUpper, isLower])
    ⟨by decide, by simp [bytesOf, isDigit]⟩
    (by simp) (by decide) (by decide)

/-- "CONNECT a:65616 HTTP/1.1" is accepted with a port that has no place in 16 bits. -/
theorem not_usableTarget :
    ¬ ∀ (line : Bytes) (data : NetData), Fetched line data → UsableTarget line data := by
  intro h
  have husable := h (connectLine (bytesOf "a:65616"))
    ((netDataInit zeroHeap).addLine (connectLine (bytesOf "a:65616"))) .start
  have hgood := husable.good .start
    (.connect (connectLine_str (by decide)) (connectLine_shape (by decide) (by decide)) rfl)
  have hshape : HostShape (bytesOf "a") (some (bytesOf "65616")) [] :=
    .port (by decide) (by simp [bytesOf, hostChar, isAlpha, isUpper, isLower])
      ⟨by decide, by simp [bytesOf, isDigit]⟩ (by simp)
  rcases hgood.shape rfl hshape with ⟨hnone, -⟩ | ⟨p, hp, -, hhi⟩
  · exact absurd hnone (by simp)
  · rw [← Option.some.inj hp] at hhi
    exact absurd hhi (by decide)

end HttpProxy
