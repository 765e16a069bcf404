/-
  HttpProxy.Stream.Pipeline

  The loop of net_req_handler over pipelined requests.  A round fetches and parses
  one head, and net_http_req_handler forwards it and relays the body; the next round
  starts where the body ends.  `framed_iff` says for which requests the whole
  pipeline is framed like that.
-/

import HttpProxy.Stream.Request

namespace HttpProxy

open Lib

-- ============================================================================
-- The loop of net_req_handler
-- ============================================================================

/-- `net_http_req_handler` on the server `net_connect_to_server` has returned. -/
def netHttpReqHandler (req : NetReq) : Io Int := do
  let ret ← connWrite .server (reqHeader (hostField req)).content
  -- the next server is tried after a failure
  if ret ≠ 0 then return ret
  else netTransferBody .server .client (hostField req).data

/-- A connection that is open and takes whatever is written to it. -/
structure Sock.Ready (s : Sock) : Prop where
  ok : s.Ok
  stat : s.stat ≠ .closed
  isOpen : s.isOpen = true
  out : capacity s.out = none

/-- One round of the loop of `net_req_handler`, in which `net_connect_to_server` returns
    the connection `server`: the request `req` is dispatched, its handler returns `ret`, and
    the server is sent `put`. -/
structure ReqRound (heap : Nat → Bytes) (server : Sock) (w : Wire) (req : NetReq) (ret : Int)
    (put : Bytes) (w' : Wire) : Prop where
  live : w.Live .client
  running : w.mainStat = .running
  run : ∃ data w₁, Evals (netFetchHttp .client (netDataInit heap)) w (0, data) w₁ ∧
    netGetHandler (data.buf.str 0) = some .http ∧ netParseReq (netReqInit data) = (req, 0) ∧
    Evals (netHttpReqHandler req) (w₁.set .server server) ret w'
  sent : (w'.sock .server).sent = server.sent ++ put

/-- The bytes of pipelined requests. -/
def pipeline (rs : List Request) : Bytes := rs.flatMap Request.bytes

/-- Whatever connections the servers are on and whatever the memory holds, the loop dispatches
    the requests in their order, sends each server the head and the body of its request, and
    reads the client up to the next request in each round. -/
def Framed (rest : Bytes) : List Request → Wire → Prop
  | [], w => w.unread .client = rest
  | r :: rs, w => w.unread .client = pipeline (r :: rs) ++ rest ∧
      ∀ (heap : Nat → Bytes) (server : Sock), server.Ready →
        ∃ req w', ReqRound heap server w req 0 (reqHead (hostField req) ++ r.body.bytes) w' ∧
          r.Dispatched req ∧ Framed rest rs w'

-- ============================================================================
-- One round
-- ============================================================================

section

variable {w : Wire} {rest : Bytes} {heap : Nat → Bytes} {server : Sock}

theorem Sock.fresh_ready : (Sock.fresh [] []).Ready :=
  ⟨⟨Nat.le_refl 0, Nat.zero_le _⟩, by decide, rfl, rfl⟩

theorem Sock.Ready.willing (h : server.Ready) (hrun : w.mainStat = .running) :
    (w.set .server server).Willing .server := by
  simp [Wire.Willing, Wire.room, hrun, h.stat, h.isOpen, h.out]

/-- Everything a round does is decided by the stream and the server connection. -/
theorem ReqRound.det {req req' : NetReq} {ret ret' : Int} {put put' : Bytes} {w₁ w₂ : Wire}
    (h : ReqRound heap server w req ret put w₁) (h' : ReqRound heap server w req' ret' put' w₂) :
    req = req' ∧ w₁ = w₂ := by
  obtain ⟨_, _, ⟨data, u, hfetch, _, hparse, hrun⟩, _⟩ := h
  obtain ⟨_, _, ⟨data', u', hfetch', _, hparse', hrun'⟩, _⟩ := h'
  obtain ⟨heq, rfl⟩ := hfetch.det hfetch'
  obtain rfl := (Prod.mk.inj heq).2
  obtain rfl := (Prod.mk.inj (hparse.symm.trans hparse')).1
  exact ⟨rfl, (hrun.det hrun').2⟩

/-- The head of a request is forwarded before its body. -/
theorem netHttpReqHandler_body (req : NetReq) (hok : w.Ok) (hserver : w.Willing .server) :
    ∃ w₁, w₁.Ok ∧ Relay .client w w₁ [] (reqHead (hostField req)) ∧ ∀ ret w',
      Evals (netHttpReqHandler req) w ret w' ↔
        Evals (netTransferBody .server .client (hostField req).data) w₁ ret w' := by
  obtain ⟨w₁, hwrite, h₁, _⟩ := connWrite_takes hok
    (show w.Live Role.client.other from hserver.live)
    (hserver.takes (reqHead (hostField req)).length)
  refine ⟨w₁, evals_ok hwrite hok, h₁, fun ret w' => ?_⟩
  rw [netHttpReqHandler, (reqHeader_holds (hostField req)).raw.content]
  refine hwrite.bind_iff.trans ?_
  simp only [ne_eq, not_true_eq_false, if_false]

/-- A round on a good request. -/
theorem reqRound_good (heap : Nat → Bytes) (r : Request)
    (hfits : r.head.length ≤ HTTP_HEADER_MAXLEN) (hgood : r.Good) (hok : w.Ok)
    (hlive : w.Live .client) (hrun : w.mainStat = .running)
    (hu : w.unread .client = r.bytes ++ rest) (hserver : server.Ready) :
    ∃ req w', ReqRound heap server w req 0 (reqHead (hostField req) ++ r.body.bytes) w' ∧
      r.Dispatched req ∧ w'.Ok ∧ w'.Live .client ∧ w'.mainStat = .running ∧
      w'.unread .client = rest := by
  obtain ⟨data, w₁, hfetch, ⟨got, h₁⟩, hu₁, hdata, ⟨line, hline⟩, hhandler⟩ :=
    r.fetch heap hfits hok hlive hu
  obtain ⟨req, hparse, hfound⟩ := r.parse hdata hline hgood.1
  have hlive₁ : w₁.Live .client := h₁.live hlive
  have hwilling := hserver.willing (h₁.mainStat.trans hrun)
  obtain ⟨w₂, hok₂, h₂, hgo⟩ :=
    netHttpReqHandler_body req ((evals_ok hfetch hok).set hserver.ok) hwilling
  have hlive₂ : w₂.Live .client := h₂.live hlive₁
  have hu₂ : w₂.unread .client = r.body.bytes ++ rest :=
    h₂.unread.symm.trans ((w₁.unread_set_other server).trans hu₁)
  obtain ⟨w₃, hbody, h₃⟩ := body_eval (Request.announces hfound) hgood.2 hok₂ hlive₂
    (h₂.willing hwilling) hu₂
  have hall := h₂.trans h₃
  refine ⟨req, w₃, ⟨hlive, hrun, ⟨data, w₁, hfetch, hhandler, hparse, (hgo 0 w₃).mpr hbody⟩, ?_⟩,
    hfound, evals_ok hbody hok₂, h₃.live hlive₂, hall.mainStat.trans (h₁.mainStat.trans hrun), ?_⟩
  · have hsent := hall.sent
    rw [show ((w₁.set .server server).sock Role.client.other).sent = server.sent from
      congrArg Sock.sent (w₁.set_sock_self .server server)] at hsent
    exact hsent
  · exact h₃.unread_rest hu₂

/-- No round dispatches a request that is not good. -/
theorem reqRound_bad (r : Request) (hfits : r.head.length ≤ HTTP_HEADER_MAXLEN) (hbad : ¬ r.Good)
    (hok : w.Ok) (hu : w.unread .client = r.bytes ++ rest) (hserver : server.Ready)
    {req : NetReq} {put : Bytes} {w' : Wire} (h : ReqRound heap server w req 0 put w') :
    ¬ r.Dispatched req := by
  intro hfound
  obtain ⟨hlive, hrun, ⟨data', w₁', hfetch', _, hparse', hrelay⟩, _⟩ := h
  obtain ⟨data, w₁, hfetch, ⟨got, h₁⟩, hu₁, hdata, ⟨line, hline⟩, _⟩ :=
    r.fetch heap hfits hok hlive hu
  obtain ⟨heq, rfl⟩ := hfetch'.det hfetch
  obtain rfl := (Prod.mk.inj heq).2
  by_cases hlower : ∀ b ∈ r.scheme, isLower b = true
  · have htrailers : ¬ ∀ t ∈ r.body.trailers, 255 ∉ t ∧ t.length + 1 ≠ HTTP_HEADER_MAXLEN :=
      fun h => hbad ⟨hlower, h⟩
    have hwilling := hserver.willing (h₁.mainStat.trans hrun)
    obtain ⟨w₂, hok₂, h₂, hgo⟩ :=
      netHttpReqHandler_body req ((evals_ok hfetch hok).set hserver.ok) hwilling
    obtain ⟨w₃, hbody⟩ := body_bad (Request.announces hfound) htrailers hok₂
      (h₂.live (h₁.live hlive)) (h₂.willing hwilling)
      (h₂.unread.symm.trans ((w₁'.unread_set_other server).trans hu₁))
    have hret := (((hgo 0 w').mp hrelay).det hbody).1
    exact absurd hret (by decide)
  · exact r.parse_upper hdata hline hlower hparse' hfound

end

-- ============================================================================
-- Pipelines
-- ============================================================================

/-- A pipeline that starts with a request that is not good is not framed. -/
theorem not_framed {w : Wire} {rest : Bytes} {r : Request} {rs : List Request}
    (hfits : r.head.length ≤ HTTP_HEADER_MAXLEN) (hok : w.Ok) (hbad : ¬ r.Good) :
    ¬ Framed rest (r :: rs) w := by
  rintro ⟨hu, hround⟩
  rw [pipeline, List.flatMap_cons, List.append_assoc] at hu
  obtain ⟨req, w', hreq, hfound, _⟩ := hround zeroHeap _ Sock.fresh_ready
  exact reqRound_bad r hfits hbad hok hu Sock.fresh_ready hreq hfound

/-- A pipeline is framed exactly when the scheme of every URI is in lower case, and no
    trailer line of a chunked body holds the byte 0xFF or is one byte shorter than the
    limit. -/
theorem framed_iff {w : Wire} {rest : Bytes} (rs : List Request)
    (hfits : ∀ r ∈ rs, r.head.length ≤ HTTP_HEADER_MAXLEN) (hok : w.Ok) (hlive : w.Live .client)
    (hrun : w.mainStat = .running) (hu : w.unread .client = pipeline rs ++ rest) :
    Framed rest rs w ↔ ∀ r ∈ rs, r.Good := by
  induction rs generalizing w with
  | nil =>
      refine ⟨fun _ => List.forall_mem_nil _, fun _ => ?_⟩
      exact hu
  | cons r rs ih =>
      rw [List.forall_mem_cons] at hfits
      have hsplit : pipeline (r :: rs) ++ rest = r.bytes ++ (pipeline rs ++ rest) := by
        rw [pipeline, List.flatMap_cons, List.append_assoc]
        rfl
      have hu' := hu
      rw [hsplit] at hu'
      rw [List.forall_mem_cons]
      constructor
      · intro hframed
        have hgood : r.Good := by
          by_contra hbad
          exact not_framed hfits.1 hok hbad hframed
        obtain ⟨req, w', hreq, _, hnext⟩ := hframed.2 zeroHeap _ Sock.fresh_ready
        obtain ⟨req₁, w₁, hreq₁, _, hok₁, hlive₁, hrun₁, hu₁⟩ :=
          reqRound_good zeroHeap r hfits.1 hgood hok hlive hrun hu' Sock.fresh_ready
        obtain ⟨_, rfl⟩ := hreq.det hreq₁
        exact ⟨hgood, (ih hfits.2 hok₁ hlive₁ hrun₁ hu₁).mp hnext⟩
      · rintro ⟨hgood, hrest⟩
        refine ⟨hu, fun heap server hserver => ?_⟩
        obtain ⟨req, w', hreq, hfound, hok', hlive', hrun', hu''⟩ :=
          reqRound_good heap r hfits.1 hgood hok hlive hrun hu' hserver
        exact ⟨req, w', hreq, hfound, (ih hfits.2 hok' hlive' hrun' hu'').mpr hrest⟩

-- ============================================================================
-- Two pipelines
-- ============================================================================

/-- A client that sends `u` and, after a while, `v`. -/
def Wire.asking (u v : Bytes) : Wire := .fresh (pushData u (.block :: pushData v []), []) ([], [])

theorem Wire.asking_unread (u v : Bytes) : (Wire.asking u v).unread .client = u ++ v := by
  show [] ++ stream (pushData u (.block :: pushData v [])) = u ++ v
  rw [List.nil_append, stream_pushData, stream, stream_pushData, stream, List.append_nil]

theorem Wire.asking_ok (u v : Bytes) : (Wire.asking u v).Ok := Wire.fresh_ok _ _

theorem Wire.asking_live (u v : Bytes) : (Wire.asking u v).Live .client := Wire.fresh_live _ _ _

/-- A POST request for http://a/ with a chunked body and one trailer line. -/
def abcRequest (t : Bytes) (h : t ≠ [] ∧ NoEol t ∧ t.length < HTTP_HEADER_MAXLEN) : Request where
  method := bytesOf "POST"
  scheme := bytesOf "http"
  host := bytesOf "a"
  port := none
  path := bytesOf "/"
  major := bytesOf "1"
  minor := bytesOf "1"
  fields := [
    { name := bytesOf "Transfer-Encoding", blanks := 1, value := bytesOf "chunked",
      nameNe := by decide, nameLt := by decide,
      nameChars := by simp [bytesOf, isAlpha, isUpper, isLower],
      valueHead := by decide, valuePlain := by decide }]
  body := .chunked (abcBody t h)
  registered := by simp [handlers]
  schemeNe := by decide
  schemeChars := by simp [bytesOf, schemeChar, isAlpha, isUpper, isLower]
  hostNe := by decide
  hostChars := by simp [bytesOf, isAlpha, isUpper, isLower]
  portDigits := by simp
  pathHead := by simp [bytesOf]
  pathPlain := by decide
  majorDigits := ⟨by decide, by simp [bytesOf, isDigit]⟩
  minorDigits := ⟨by decide, by simp [bytesOf, isDigit]⟩
  framing := ⟨by decide, _, rfl, rfl⟩

/-- A GET request for http://b:8080. -/
def getRequest : Request where
  method := bytesOf "GET"
  scheme := bytesOf "http"
  host := bytesOf "b"
  port := some (bytesOf "8080")
  path := []
  major := bytesOf "1"
  minor := bytesOf "1"
  fields := []
  body := .none
  registered := by simp [handlers]
  schemeNe := by decide
  schemeChars := by simp [bytesOf, schemeChar, isAlpha, isUpper, isLower]
  hostNe := by decide
  hostChars := by simp [bytesOf, isAlpha, isUpper, isLower]
  portDigits := by
    rintro p ⟨⟩
    exact ⟨⟨by decide, by simp [bytesOf, isDigit]⟩, by decide⟩
  pathHead := by simp
  pathPlain := by decide
  majorDigits := ⟨by decide, by simp [bytesOf, isDigit]⟩
  minorDigits := ⟨by decide, by simp [bytesOf, isDigit]⟩
  framing := .inr ⟨List.forall_mem_nil _, List.forall_mem_nil _⟩

/-- The first one has the trailer line "a:b". -/
def twoRequests : List Request := [abcRequest [97, 58, 98] (by decide), getRequest]

/-- The first request arrives in two parts. -/
theorem framed_two :
    Framed [] twoRequests
      (.asking ((pipeline twoRequests).take 60) ((pipeline twoRequests).drop 60)) := by
  have hu : (Wire.asking ((pipeline twoRequests).take 60) ((pipeline twoRequests).drop 60)).unread
      .client = pipeline twoRequests ++ [] := by
    rw [Wire.asking_unread, List.take_append_drop, List.append_nil]
  refine (framed_iff twoRequests ?_ (Wire.asking_ok _ _) (Wire.asking_live _ _) rfl hu).mpr ?_
  · simp only [twoRequests, List.forall_mem_cons]
    exact ⟨by decide, by decide, List.forall_mem_nil _⟩
  · simp only [twoRequests, List.forall_mem_cons]
    refine ⟨⟨?_, by decide⟩, ⟨?_, List.forall_mem_nil _⟩, List.forall_mem_nil _⟩
    · simp [abcRequest, bytesOf, isLower]
    · simp [getRequest, bytesOf, isLower]

/-- The trailer line is "a:" followed by the byte 0xFF. -/
theorem not_framed_ff :
    ¬ Framed [] [abcRequest [97, 58, 255] (by decide)]
      (.asking (pipeline [abcRequest [97, 58, 255] (by decide)]) []) := by
  refine not_framed (by decide) (Wire.asking_ok _ _) ?_
  rintro ⟨_, htrailers⟩
  have hff := (htrailers [97, 58, 255] (List.mem_singleton_self _)).1
  exact hff (by decide)

end HttpProxy
