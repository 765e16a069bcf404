/-
  HttpProxy.Parse.RequestLine

  net_parse_req in front of the label parse_host, on any buffer whose first string is
  a request line: the line is cut up (`netParseReq_line`), then the URI is
  (`netParseUri_absolute`), or the host is looked up (`netParseUri_origin`).
-/

import HttpProxy.Parse.Host

namespace HttpProxy

open Lib.Regex

section

variable {req : NetReq} {method uri scheme auth path a b : Bytes}

-- ============================================================================
-- The line
-- ============================================================================

/-- `req'` is `req` with its request line cut up. -/
structure LineParsed (req req' : NetReq) (method uri a b : Bytes) : Prop where
  pathIs : req'.path = method.length + 1
  table : req'.data.table = req.data.table
  major : req'.verMajor = atoi a
  minor : req'.verMinor = atoi b
  methodAt : req'.data.buf.StrAt 0 method
  uriAt : req'.data.buf.StrAt req'.path uri
  sound : req'.data.buf.Sound
  len : req'.data.buf.len = req.data.buf.len
  frame : ∀ off s, req.data.buf.StrAt off s → (requestLine method uri a b).length < off →
    req'.data.buf.StrAt off s

theorem requestLine_length (method uri a b : Bytes) :
    (requestLine method uri a b).length =
      method.length + 1 + uri.length + 6 + a.length + 1 + b.length := by
  simp only [requestLine, List.length_append, List.length_singleton,
    show (bytesOf " HTTP/").length = 6 from rfl]
  omega

/-- A line that is no request line is refused. -/
theorem netParseReq_none (h : exec reqPatt (req.data.buf.str 0) = none) :
    netParseReq req = (req, -1) := by
  rw [netParseReq, h]

/-- A request line is cut up, and the method decides what is parsed next. -/
theorem netParseReq_line (h : req.data.buf.StrAt 0 (requestLine method uri a b))
    (hbuf : req.data.buf.Sound) (hshape : RequestShape method uri a b) :
    ∃ req', LineParsed req req' method uri a b ∧
      netParseReq req =
        if method = bytesOf "CONNECT" then netParseHost { req' with host := req'.path }
        else netParseUri req' := by
  have hlen := requestLine_length method uri a b
  have hsix : (bytesOf " HTTP/").length = 6 := rfl
  -- the strings of the line, each behind a byte that becomes a NUL
  have huri₀ := (show req.data.buf.StrAt 0 (method ++ ([32] ++
    (uri ++ (bytesOf " HTTP/" ++ (a ++ ([46] ++ b)))))) from h).right.right
  have hmajor₀ := huri₀.right.right
  have hminor₀ := hmajor₀.right.right
  simp only [Nat.zero_add, List.length_singleton, hsix] at huri₀ hmajor₀ hminor₀
  have hmethod₁ : (req.data.buf.set method.length 0).StrAt 0 method := by
    have hleft := (show req.data.buf.StrAt 0 (method ++ ([32] ++
      (uri ++ (bytesOf " HTTP/" ++ (a ++ ([46] ++ b)))))) from h).left
    rwa [Nat.zero_add] at hleft
  have huri₂ : ((req.data.buf.set method.length 0).set (method.length + 1 + uri.length) 0).StrAt
      (method.length + 1) uri := (huri₀.set (.inl (by omega))).left
  have hmajor₃ : (((req.data.buf.set method.length 0).set (method.length + 1 + uri.length) 0).set
      (method.length + 1 + uri.length + 6 + a.length) 0).StrAt
      (method.length + 1 + uri.length + 6) a :=
    ((hmajor₀.set (.inl (by omega))).set (.inl (by omega))).left
  have hminor₄ : ((((req.data.buf.set method.length 0).set (method.length + 1 + uri.length) 0).set
      (method.length + 1 + uri.length + 6 + a.length) 0).set
      (method.length + 1 + uri.length + 6 + a.length + 1 + b.length) 0).StrAt
      (method.length + 1 + uri.length + 6 + a.length + 1) b := by
    have hcut := (((hminor₀.set (d := 0) (i := method.length) (.inl (by omega))).set (d := 0)
      (i := method.length + 1 + uri.length) (.inl (by omega))).set (d := 0)
      (i := method.length + 1 + uri.length + 6 + a.length) (.inl (by omega))).cut
      (Nat.le_refl b.length)
    rwa [List.take_length] at hcut
  have hsound := (((hbuf.set method.length 0).set (method.length + 1 + uri.length) 0).set
    (method.length + 1 + uri.length + 6 + a.length) 0).set
    (method.length + 1 + uri.length + 6 + a.length + 1 + b.length) 0
  have hmethod₄ := ((hmethod₁.set (d := 0) (i := method.length + 1 + uri.length)
    (.inr (by omega))).set (d := 0) (i := method.length + 1 + uri.length + 6 + a.length)
    (.inr (by omega))).set (d := 0)
    (i := method.length + 1 + uri.length + 6 + a.length + 1 + b.length) (.inr (by omega))
  have huri₄ := (huri₂.set (d := 0) (i := method.length + 1 + uri.length + 6 + a.length)
    (.inr (by omega))).set (d := 0)
    (i := method.length + 1 + uri.length + 6 + a.length + 1 + b.length) (.inr (by omega))
  have hmajor₄ := hmajor₃.set (d := 0)
    (i := method.length + 1 + uri.length + 6 + a.length + 1 + b.length) (.inr (by omega))
  have hframe (off : Nat) (s : Bytes) (hs : req.data.buf.StrAt off s)
      (hoff : (requestLine method uri a b).length < off) :
      ((((req.data.buf.set method.length 0).set (method.length + 1 + uri.length) 0).set
        (method.length + 1 + uri.length + 6 + a.length) 0).set
        (method.length + 1 + uri.length + 6 + a.length + 1 + b.length) 0).StrAt off s :=
    (((hs.set (.inl (by omega))).set (.inl (by omega))).set (.inl (by omega))).set
      (.inl (by omega))
  generalize hcut : (((req.data.buf.set method.length 0).set (method.length + 1 + uri.length) 0).set
    (method.length + 1 + uri.length + 6 + a.length) 0).set
    (method.length + 1 + uri.length + 6 + a.length + 1 + b.length) 0 = buf at *
  have hbuflen : buf.len = req.data.buf.len := by
    rw [← hcut]
    rfl
  have hstep : netParseReq req =
      if buf.str 0 = bytesOf "CONNECT" then
        netParseHost { req with
          data.buf := buf
          verMajor := atoi (buf.str (method.length + 1 + uri.length + 6))
          verMinor := atoi (buf.str (method.length + 1 + uri.length + 6 + a.length + 1))
          path := method.length + 1
          host := method.length + 1 }
      else
        netParseUri { req with
          data.buf := buf
          verMajor := atoi (buf.str (method.length + 1 + uri.length + 6))
          verMinor := atoi (buf.str (method.length + 1 + uri.length + 6 + a.length + 1))
          path := method.length + 1 } := by
    subst hcut
    rw [netParseReq, h.str, hshape.exec]
    rfl
  rw [hmethod₄.str, hmajor₄.str, hminor₄.str] at hstep
  exact ⟨{ req with
      data.buf := buf
      verMajor := atoi a
      verMinor := atoi b
      path := method.length + 1 },
    ⟨rfl, rfl, rfl, rfl, hmethod₄, huri₄, hsound, hbuflen, hframe⟩, hstep⟩

-- ============================================================================
-- The URI
-- ============================================================================

/-- `req'` is `req` with its absolute URI cut up. -/
structure UriParsed (req req' : NetReq) (scheme auth path : Bytes) : Prop where
  hostIs : req'.host = req.path + scheme.length + 3
  hostAt : req'.data.buf.StrAt req'.host (auth ++ path)
  pathIs : req'.path = if path = [] then req.data.buf.len else req'.host + auth.length
  pathAt : req'.data.buf.StrAt req'.path (if path = [] then [47] else path)
  table : req'.data.table = req.data.table
  major : req'.verMajor = req.verMajor
  minor : req'.verMinor = req.verMinor
  sound : req'.data.buf.Sound
  len : req.data.buf.len ≤ req'.data.buf.len
  /-- Only the colon of the scheme is overwritten. -/
  frame : ∀ off s, req.data.buf.StrAt off s → off + s.length < req.data.buf.len →
    (off + s.length < req.path + scheme.length ∨ req.path + scheme.length < off) →
    req'.data.buf.StrAt off s

theorem uriText_length (scheme auth path : Bytes) :
    (uriText scheme auth path).length = scheme.length + 3 + auth.length + path.length := by
  simp only [uriText, List.length_append, show (bytesOf "://").length = 3 from rfl]
  omega

/-- An absolute URI gives the host and the path. -/
theorem netParseUri_absolute (h : req.data.buf.StrAt req.path (uriText scheme auth path))
    (hbuf : req.data.buf.Sound)
    (hin : req.path + (uriText scheme auth path).length < req.data.buf.len)
    (hshape : UriShape scheme auth path) :
    ∃ req', UriParsed req req' scheme auth path ∧ netParseUri req = netParseHost req' := by
  rw [uriText_length] at hin
  have hthree : (bytesOf "://").length = 3 := rfl
  have hauth₀ := (show req.data.buf.StrAt req.path (scheme ++ (bytesOf "://" ++ (auth ++ path)))
    from h).right.right
  have hpath₀ := hauth₀.right
  rw [hthree] at hauth₀ hpath₀
  have hauth₁ := hauth₀.set (d := 0) (i := req.path + scheme.length) (.inl (by omega))
  have hpath₁ := hpath₀.set (d := 0) (i := req.path + scheme.length) (.inl (by omega))
  have hsound := hbuf.set (req.path + scheme.length) 0
  have hframe (off : Nat) (s : Bytes) (hs : req.data.buf.StrAt off s)
      (hout : off + s.length < req.path + scheme.length ∨ req.path + scheme.length < off) :
      (req.data.buf.set (req.path + scheme.length) 0).StrAt off s := hs.set (by omega)
  have hlen : (req.data.buf.set (req.path + scheme.length) 0).len = req.data.buf.len := rfl
  rw [netParseUri, h.str, hshape.exec]
  by_cases hnil : path = []
  · subst hnil
    have hslash : (strbufCat (req.data.buf.set (req.path + scheme.length) 0) (bytesOf "/")).StrAt
        req.data.buf.len [47] := hsound.cat_strAt (by decide) (by decide)
    have hcat : (strbufCat (req.data.buf.set (req.path + scheme.length) 0) (bytesOf "/")).len =
        req.data.buf.len + 1 := strbufCat_len
    refine ⟨{ req with
        data.buf := strbufCat (req.data.buf.set (req.path + scheme.length) 0) (bytesOf "/")
        protocol := (req.path : Int)
        host := req.path + (scheme.length + 3)
        path := req.data.buf.len },
      ⟨(Nat.add_assoc _ _ _).symm, ?_, (if_pos rfl).symm, ?_, rfl, rfl, rfl, hsound.cat _, ?_,
        fun off s hs hlt hout => ?_⟩, rfl⟩
    · refine hauth₁.cat hsound ?_
      rw [hlen, List.length_append, List.length_nil]
      rw [List.length_nil] at hin
      omega
    · rw [if_pos rfl]
      exact hslash
    · show req.data.buf.len ≤
        (strbufCat (req.data.buf.set (req.path + scheme.length) 0) (bytesOf "/")).len
      omega
    · exact (hframe off s hs hout).cat hsound hlt
  · simp only [if_neg hnil]
    refine ⟨{ req with
        data.buf := req.data.buf.set (req.path + scheme.length) 0
        protocol := (req.path : Int)
        host := req.path + (scheme.length + 3)
        path := req.path + (scheme.length + 3 + auth.length) },
      ⟨(Nat.add_assoc _ _ _).symm, hauth₁, ?_, ?_, rfl, rfl, rfl, hsound, Nat.le_refl _,
        fun off s hs _ hout => hframe off s hs hout⟩, rfl⟩
    · rw [if_neg hnil]
      exact (Nat.add_assoc _ _ _).symm
    · rw [if_neg hnil]
      have hoff : req.path + (scheme.length + 3 + auth.length) =
          req.path + scheme.length + 3 + auth.length := by omega
      show (req.data.buf.set (req.path + scheme.length) 0).StrAt
        (req.path + (scheme.length + 3 + auth.length)) path
      rw [hoff]
      exact hpath₁

/-- Without an absolute URI the host is the value of a Host field. -/
theorem netParseUri_origin (h : exec uriPatt (req.data.buf.str req.path) = none) :
    netParseUri req =
      match netDataGetEntOffset req.data (bytesOf "Host") with
      | none => (req, -1)
      | some host => netParseHost { req with host, protocol := -1 } := by
  unfold netParseUri
  dsimp only
  generalize exec uriPatt (req.data.buf.str req.path) = res at h ⊢
  subst h
  rfl

end

end HttpProxy
