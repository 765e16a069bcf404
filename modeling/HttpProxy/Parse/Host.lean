/-
  HttpProxy.Parse.Host

  net_parse_req from the label parse_host on: `netParseHost_spec` says what becomes of
  a host, its port and the text behind them, and `netParseHost_none` which texts are
  refused.
-/

import HttpProxy.Parse.Shapes
import HttpProxy.Parse.Strings

namespace HttpProxy

open Lib.Regex

/-- The port `net_parse_req` stores: `atoi` of the digits, 80 without any. -/
def portInt : Option Bytes → Int
  | none => HTTP_DEFAULT_PORT
  | some port => toInt32 (min (digitsVal 10 port) (2 ^ 63 - 1) : Nat)

/-- What `net_parse_req` leaves at `req->host` of `host`, `port` and `rest`: the text is cut at
    the port's colon, and where the path follows the host the host is copied. -/
def hostText (req : NetReq) (host : Bytes) (port : Option Bytes) (rest : Bytes) : Bytes :=
  if port = none ∧ req.host + host.length ≠ req.path then host ++ rest else host

/-- `req'` is `req` behind `parse_host`. -/
structure HostParsed (req req' : NetReq) (host : Bytes) (port : Option Bytes) (rest : Bytes) :
    Prop where
  path : req'.path = req.path
  table : req'.data.table = req.data.table
  major : req'.verMajor = req.verMajor
  minor : req'.verMinor = req.verMinor
  portIs : req'.port = portInt port
  hostAt : req'.data.buf.StrAt req'.host (hostText req host port rest)
  sound : req'.data.buf.Sound
  hostIs : req.host + host.length ≠ req.path → req'.host = req.host
  len : req.data.buf.len ≤ req'.data.buf.len
  /-- Only the colon of a port is overwritten, and a copy is put behind the content. -/
  frame : ∀ off s, req.data.buf.StrAt off s →
    (off + s.length < req.data.buf.len ∨ req.host + host.length ≠ req.path) →
    (port = none ∨ off + s.length < req.host + host.length ∨ req.host + host.length < off) →
    req'.data.buf.StrAt off s

section

variable {req : NetReq} {host rest port u : Bytes} {buf : Strbuf} {off : Nat}

/-- Copying the beginning of a string to the end of the buffer. -/
theorem strbufCopyOut_strAt (h : buf.StrAt off (host ++ rest)) :
    strbufCopyOut buf off host.length = strbufCat buf (host ++ [0]) := by
  obtain ⟨tail, hp⟩ := h.p
  have hcopy : (buf.p.drop off).take host.length = host := by
    rw [hp, List.append_assoc, List.take_left]
  rw [strbufCopyOut, hcopy, strbufCat_append, strbufCat_cons, strbufCat_nil]
  rfl

/-- A text that does not start with a host is refused. -/
theorem netParseHost_none (h : exec hostPatt (req.data.buf.str req.host) = none) :
    netParseHost req = (req, -1) := by
  rw [netParseHost, h]

/-- Without a port the buffer keeps what it holds, and the host may be put behind it. -/
theorem netParseHost_noPort (h : req.data.buf.StrAt req.host (host ++ rest))
    (hbuf : req.data.buf.Sound) (hshape : HostShape host none rest) :
    ∃ req', netParseHost req = (req', 0) ∧ HostParsed req req' host none rest := by
  have hnul : 0 ∉ host := fun hmem => absurd (hshape.hostChars 0 hmem) (by decide)
  have hexec := hshape.exec
  simp only [portText, List.nil_append, List.append_nil] at hexec
  rw [netParseHost, h.str, hexec]
  have heo : rmEo [(0, 0, host.length), (1, 0, host.length)] 1 = host.length := rfl
  simp only [heo]
  by_cases hpath : host.length + req.host = req.path
  · simp only [if_pos hpath]
    have hcopy : strbufCopyOut req.data.buf
        (req.host + rmSo [(0, 0, host.length), (1, 0, host.length)] 1)
        (host.length - rmSo [(0, 0, host.length), (1, 0, host.length)] 1) =
          strbufCat req.data.buf (host ++ [0]) := strbufCopyOut_strAt h
    rw [hcopy]
    refine ⟨_, rfl, rfl, rfl, rfl, rfl, rfl, ?_, hbuf.cat _, fun hne => absurd hpath (by omega), ?_,
      fun off s hs hlt _ => ?_⟩
    · rw [hostText, if_neg (by omega)]
      exact hbuf.cat_nul_strAt hnul
    · show req.data.buf.len ≤ (strbufCat req.data.buf (host ++ [0])).len
      rw [strbufCat_len]
      omega
    · exact hs.cat hbuf (hlt.resolve_right (by omega))
  · simp only [if_neg hpath]
    refine ⟨_, rfl, rfl, rfl, rfl, rfl, rfl, ?_, hbuf, fun _ => rfl, Nat.le_refl _,
      fun off s hs _ _ => hs⟩
    rw [hostText, if_pos ⟨rfl, by omega⟩]
    exact h

/-- A port is cut off at its colon. -/
theorem netParseHost_port (h : req.data.buf.StrAt req.host (host ++ (58 :: (port ++ rest))))
    (hbuf : req.data.buf.Sound) (hshape : HostShape host (some port) rest)
    (hpath : req.host + host.length ≠ req.path) :
    ∃ req', netParseHost req = (req', 0) ∧ HostParsed req req' host (some port) rest := by
  have hexec := hshape.exec
  simp only [portText, List.cons_append] at hexec
  obtain ⟨hdigits, hstop⟩ : Digits port ∧ ∀ x ∈ rest.head?, isDigit x = false := by
    cases hshape with
    | port _ _ hdigits hrest => exact ⟨hdigits, hrest⟩
  have hlen : (host ++ 58 :: (port ++ rest)).length = host.length + 1 + (port ++ rest).length := by
    rw [List.length_append, List.length_cons]
    omega
  have hdigitsAt : (req.data.buf.set (req.host + host.length) 0).str (req.host + host.length + 1) =
      port ++ rest := by
    have hport := h.drop (n := host.length + 1) (by rw [hlen]; omega)
    rw [← List.drop_drop, List.drop_left, List.drop_succ_cons, List.drop_zero] at hport
    exact (hport.set (.inl (by omega))).str
  have heo : rmEo
    [(0, 0, (host ++ 58 :: port).length), (2, host.length, (host ++ 58 :: port).length),
      (1, 0, host.length)] 1 = host.length := rfl
  have hso : Caps.so [(0, 0, (host ++ 58 :: port).length),
      (2, host.length, (host ++ 58 :: port).length), (1, 0, host.length)] 2 =
      some host.length := rfl
  rw [netParseHost, h.str, hexec]
  simp only [heo, hso, if_neg (show host.length + req.host ≠ req.path by omega)]
  refine ⟨_, rfl, rfl, rfl, rfl, rfl, ?_, ?_, hbuf.set _ _, fun _ => rfl, Nat.le_refl _,
    fun off s hs _ hout => ?_⟩
  · show atoi ((req.data.buf.set (req.host + host.length) 0).str (req.host + host.length + 1)) = _
    rw [hdigitsAt, atoi_digits_append hdigits hstop, portInt]
  · rw [hostText, if_neg (by simp)]
    exact h.left
  · rcases hout with hnone | hout
    · exact absurd hnone (by simp)
    · exact hs.set (by omega)

/-- A text that starts with a host is accepted. -/
theorem netParseHost_spec {port : Option Bytes}
    (h : req.data.buf.StrAt req.host (host ++ (portText port ++ rest)))
    (hbuf : req.data.buf.Sound) (hshape : HostShape host port rest)
    (hpath : port = none ∨ req.host + host.length ≠ req.path) :
    ∃ req', netParseHost req = (req', 0) ∧ HostParsed req req' host port rest := by
  cases port with
  | none => exact netParseHost_noPort h hbuf hshape
  | some port => exact netParseHost_port h hbuf hshape (hpath.resolve_left (by simp))

end

end HttpProxy
