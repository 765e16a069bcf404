/-
  HttpProxy.Stream.Response

  net_http_rsp_handler reports a failure with a negative value, and its caller goes on
  with the next entry of the list.  `rspHandler_safe_iff` says when one of the two
  connections is closed by then: always, unless the body stops the line reader at a byte
  it does not accept, or the status code itself is negative.
-/

import HttpProxy.Stream.BodyRun
import HttpProxy.Stream.BadSize
import HttpProxy.Stream.HeadRun
import HttpProxy.Stream.Rebuild

namespace HttpProxy

open Lib

/-- The response the server sends ends the handler with a negative value although
    neither connection has been closed; until then the client is sent `put`. -/
inductive OpenFailure (heap : Nat → Bytes) (u : Bytes) : Bytes → Prop where
  | intro {data : NetData} {rsp : NetRsp} {rest put : Bytes} {ret : Int} :
      HeadRead heap u data rest →
      netParseRsp { data, code := 0, verMajor := 0, verMinor := 0, httpMsg := 0 } = (rsp, 0) →
      rsp.version > 100 → BodyRun rsp.data rest ret put →
      (if ret = 0 then rsp.code else ret) < 0 → OpenFailure heap u (rspHead rsp ++ put)

/-- When `net_http_rsp_handler` returns a negative value, the server or the client is
    `CONN_CLOSED`. -/
def RspSafe (heap : Nat → Bytes) (w : Wire) : Prop :=
  ∀ ret w', Evals (netHttpRspHandler heap) w ret w' → ret < 0 →
    (w'.sock .server).stat = .closed ∨ (w'.sock .client).stat = .closed

section

variable {w w' : Wire} {ret : Int} {heap : Nat → Bytes}

/-- `conn_client->tx = 0` -/
theorem Relay.of_tx (src : Role) (w : Wire) (tx : Int) :
    Relay src w (w.set src.other { w.sock src.other with io.tx := tx }) [] [] where
  mainStat := rfl
  unread := by rw [Wire.unread_set_other]; rfl
  sentSrc := by simp
  outSrc := by simp
  stat := by simp
  isOpen := by simp
  unreadDst := by simp [Wire.unread, Wire.incoming]
  sent := by simp
  room := by simp [Wire.room]
  statSrc := by simp
  isOpenSrc := by simp

/-- The handler up to the head it fetches. -/
theorem netHttpRspHandler_fetch (hok : w.Ok) :
    ∃ w₀, w₀.Ok ∧ Relay .server w w₀ [] [] ∧ ∀ y w',
      Evals (netHttpRspHandler heap) w y w' ↔ Evals (do
        let (ret, data) ← netFetchHttp .server (netDataInit heap)
        if ret ≠ 0 then do
          Io.close .server
          netBadGateway .client
          return ret
        else do
          let (rsp, ret) :=
            netParseRsp { data, code := 0, verMajor := 0, verMinor := 0, httpMsg := 0 }
          if ret ≠ 0 then do
            Io.close .server
            netBadGateway .client
            return ret
          else netRelayRsp rsp) w₀ y w' := by
  refine ⟨w.set .client { w.sock .client with io.tx := 0 }, hok.set (hok .client),
    .of_tx .server w 0, fun y w' => ?_⟩
  have hio : _ ∧ _ := hok .client
  simp only [netHttpRspHandler, Io.getBuf, Io.setBuf, Prog.bind_eq, Prog.op_bind, evals_getBuf,
    evals_setBuf]
  exact and_iff_right hio

/-- `net_http_rsp_handler` behind the body it has relayed with the result `ret`. -/
def logRsp (rsp : NetRsp) (ret : Int) : Io Int := do
  let b ← Io.getBuf .client
  Io.log b.tx
  return if ret = 0 then rsp.code else ret

/-- `net_http_rsp_handler` behind the head it has written. -/
def relayBody (rsp : NetRsp) : Io Int := do
  let ret ← (if rsp.version > 100
    then netTransferBody .client .server rsp.data else netRelayHttp10 : Io Int)
  logRsp rsp ret

theorem logRsp_evals (rsp : NetRsp) (r : Int) :
    Evals (logRsp rsp r) w ret w' ↔ ret = (if r = 0 then rsp.code else r) ∧ w' = w := by
  simp only [logRsp, Io.getBuf, Io.log, Prog.bind_eq, Prog.op_bind, evals_getBuf, evals_log,
    Prog.pure_eq, evals_ret]

theorem netRelayRsp_evals (rsp : NetRsp) :
    Evals (netRelayRsp rsp) w ret w' ↔
      Evals (do
        let _ ← connWrite .client (rspHead rsp)
        relayBody rsp) w ret w' := by
  have hbody : relayBody rsp =
      if rsp.version > 100
      then (netTransferBody .client .server rsp.data).bind (logRsp rsp)
      else netRelayHttp10.bind (logRsp rsp) := by
    rw [relayBody]
    split <;> rfl
  rw [netRelayRsp, netForwardRspHeader, (rspHeader_holds rsp).raw.content, hbody]
  simp only [Io.mark, Prog.bind_eq, Prog.op_bind, evals_mark, Prog.bind_assoc, Prog.pure_eq,
    Prog.ret_bind]
  exact Iff.rfl

/-- A body that is relayed with both connections left open. -/
theorem relayBody_open (rsp : NetRsp) (hok : w.Ok) (hlive : w.Live .server)
    (he : Evals (relayBody rsp) w ret w') (hserver : w'.Live .server) (hclient : w'.Live .client) :
    ∃ r put, rsp.version > 100 ∧ BodyRun rsp.data (w.unread .server) r put ∧
      ret = (if r = 0 then rsp.code else r) ∧ w.Takes .client put.length := by
  obtain ⟨r, w₁, hbody, hlog⟩ := he.of_bind
  obtain ⟨rfl, rfl⟩ := (logRsp_evals rsp r).mp hlog
  split at hbody
  · rename_i hver
    obtain ⟨got, put, hrun, _, htakes⟩ := bodyRun_of_evals hok hlive hbody hserver hclient
    exact ⟨r, put, hver, hrun, rfl, htakes⟩
  · obtain ⟨r', w₂, _, hclose⟩ := hbody.of_bind
    simp only [Io.close, Prog.bind_eq, Prog.op_bind, evals_close, Prog.pure_eq, evals_ret] at hclose
    obtain ⟨_, rfl⟩ := hclose
    exact absurd (by simp) hserver

/-- A failure with both connections open comes from the response itself. -/
theorem openFailure_of_evals (hok : w.Ok) (he : Evals (netHttpRspHandler heap) w ret w')
    (hret : ret < 0) (hserver : w'.Live .server) (hclient : w'.Live .client) :
    ∃ put, OpenFailure heap (w.unread .server) put ∧ w.Takes .client put.length := by
  obtain ⟨w₀, hok₀, h₀, hgo⟩ := netHttpRspHandler_fetch hok
  replace he := (hgo _ _).mp he
  have hu₀ : w.unread .server = w₀.unread .server := h₀.unread
  obtain ⟨got, ret₁, data, w₁, hfetch, hmoved, hzero⟩ :=
    netFetchHttp_eval heap hok₀ (hserver.of_evals he)
  replace he := hfetch.bind_iff.mp he
  have hclosed {r : Int} {w₁ : Wire} (h : Evals (do
      Io.close .server
      netBadGateway .client
      return r) w₁ ret w') : False := by
    simp only [Io.close, Prog.bind_eq, Prog.op_bind, evals_close] at h
    exact hserver (evals_closed h (by simp))
  by_cases hret₁ : ret₁ = 0
  · obtain ⟨hread, h₁⟩ := hzero hret₁
    simp only [hret₁, ne_eq, not_true_eq_false, if_false] at he
    generalize hparse : netParseRsp { data, code := 0, verMajor := 0, verMinor := 0, httpMsg := 0 }
      = p at he
    obtain ⟨rsp, ret₂⟩ := p
    by_cases hret₂ : ret₂ = 0
    · simp only [hret₂, not_true_eq_false, if_false] at he
      replace he := (netRelayRsp_evals rsp).mp he
      have hok₁ := evals_ok hfetch hok₀
      obtain ⟨x, w₂, hwrite, hbody⟩ := he.of_bind
      rcases connWrite_eval .server hok₁ (rspHead_ne_nil rsp) with
        ⟨w₃, he₃, h₃, _, htakes⟩ | ⟨k, w₃, he₃, hb, _⟩
      · obtain ⟨_, rfl⟩ := hwrite.det he₃
        obtain ⟨r, put, hver, hrun, rfl, htakes'⟩ := relayBody_open rsp (evals_ok he₃ hok₁)
          (hserver.of_evals hbody) hbody hserver hclient
        have hu₂ : w₁.unread .server = w₂.unread .server := h₃.unread
        rw [← hu₂] at hrun
        rw [← hu₀] at hread
        subst hret₂
        refine ⟨_, .intro hread hparse hver hrun hret, ?_⟩
        exact (h₀.toMoved.trans h₁.toMoved).takes_nil.mp
          (h₃.toMoved.takes_append.mpr ⟨htakes, htakes'⟩)
      · obtain ⟨_, rfl⟩ := hwrite.det he₃
        exact absurd (evals_closed hbody hb.closed) hclient
    · simp only [hret₂, not_false_eq_true, if_true] at he
      exact (hclosed he).elim
  · simp only [ne_eq, hret₁, not_false_eq_true, if_true] at he
    exact (hclosed he).elim

/-- Such a response does leave both connections open. -/
theorem OpenFailure.evals {put : Bytes} (h : OpenFailure heap (w.unread .server) put) (hok : w.Ok)
    (hserver : w.Live .server) (hclient : w.Live .client) (htakes : w.Takes .client put.length) :
    ∃ ret w', Evals (netHttpRspHandler heap) w ret w' ∧ ret < 0 ∧ w'.Live .server ∧
      w'.Live .client := by
  obtain ⟨w₀, hok₀, h₀, hgo⟩ := netHttpRspHandler_fetch hok
  have hu₀ : w.unread .server = w₀.unread .server := h₀.unread
  rw [hu₀] at h
  cases h with
  | @intro data rsp rest put ret hread hparse hver hrun hneg =>
      have hserver₀ : w₀.Live .server := h₀.live hserver
      obtain ⟨got, w₁, hfetch, h₁, hu₁⟩ := hread.evals hok₀ hserver₀
      have hserver₁ : w₁.Live .server := h₁.live hserver₀
      have hok₁ := evals_ok hfetch hok₀
      have h₀₁ := h₀.trans h₁
      have htakes₁ : w₁.Takes .client (rspHead rsp ++ put).length := h₀₁.takes_nil.mpr htakes
      have hhead : w₁.Takes .client (rspHead rsp).length :=
        htakes₁.mono (by rw [List.length_append]; omega)
      have hclient₁ : w₁.Live .client :=
        hhead.live (List.length_pos_iff.mpr (rspHead_ne_nil rsp))
      obtain ⟨w₂, hwrite, h₂, _⟩ := connWrite_takes hok₁
        (show w₁.Live Role.server.other from hclient₁) hhead
      have hserver₂ : w₂.Live .server := h₂.live hserver₁
      have hu₂ : w₂.unread .server = rest := by rw [← hu₁, h₂.unread]; rfl
      rw [← hu₂] at hrun
      obtain ⟨got', w₃, hbody, h₃⟩ := hrun.evals (evals_ok hwrite hok₁) hserver₂
        (h₂.takes_append.mp htakes₁).2
      have hall := (h₀₁.trans h₂).trans h₃
      have hrelay : Evals (netRelayRsp rsp) w₁ (if ret = 0 then rsp.code else ret) w₃ := by
        refine (netRelayRsp_evals rsp).mpr (hwrite.bind ?_)
        rw [relayBody, if_pos hver]
        exact hbody.bind ((logRsp_evals rsp ret).mpr ⟨rfl, rfl⟩)
      refine ⟨_, w₃, (hgo _ _).mpr (hfetch.bind ?_), hneg, ?_, ?_⟩
      · simp only [hparse, ne_eq, not_true_eq_false, if_false]
        exact hrelay
      · exact hall.live hserver
      · exact hall.live_other hclient

theorem not_rspSafe {put : Bytes} (hok : w.Ok) (hserver : w.Live .server)
    (hclient : w.Live .client) (h : OpenFailure heap (w.unread .server) put)
    (htakes : w.Takes .client put.length) : ¬ RspSafe heap w := by
  intro hsafe
  obtain ⟨ret, w', he, hneg, hserver', hclient'⟩ := h.evals hok hserver hclient htakes
  rcases hsafe ret w' he hneg with hclosed | hclosed
  · exact hserver' hclosed
  · exact hclient' hclosed

/-- A negative result leaves the server or the client closed, unless both were open, the
    response ends the handler by itself and the client takes all it is sent. -/
theorem rspHandler_safe_iff (hok : w.Ok) :
    RspSafe heap w ↔ ¬ (w.Live .server ∧ w.Live .client ∧
      ∃ put, OpenFailure heap (w.unread .server) put ∧ w.Takes .client put.length) := by
  refine ⟨fun hsafe ⟨hserver, hclient, put, h, htakes⟩ =>
    not_rspSafe hok hserver hclient h htakes hsafe, fun hnot ret w' he hneg => ?_⟩
  by_contra hopen
  rw [not_or] at hopen
  have hserver : w'.Live .server := hopen.1
  have hclient : w'.Live .client := hopen.2
  exact hnot ⟨hserver.of_evals he, hclient.of_evals he,
    openFailure_of_evals hok he hneg hserver hclient⟩

end

-- ============================================================================
-- Two servers
-- ============================================================================

/-- A server that closes the connection without an answer. -/
theorem rspHandler_safe_nothing : RspSafe zeroHeap (.serving []) := by
  refine (rspHandler_safe_iff (Wire.serving_ok [])).mpr ?_
  rintro ⟨_, _, put, ⟨hread, _⟩, _⟩
  rw [Wire.serving_unread] at hread
  have hnone (n : Nat) : (scanLine n []).1 ≠ .eol := by
    intro heol
    cases n <;> exact LineEnd.noConfusion heol
  cases hread with
  | empty hx => exact hnone _ (by rw [hx])
  | lines hx _ _ => exact hnone _ (by rw [hx])

/-- A head of a start line and one field. -/
theorem headRead_oneField {start field rest : Bytes}
    (hstart : NoEol start ∧ 255 ∉ start ∧ start ≠ [])
    (hfield : NoEol field ∧ 255 ∉ field ∧ field ≠ [])
    (hlen : start.length + field.length + 4 < HTTP_HEADER_MAXLEN)
    (hparse : (netParseHeader (((netDataInit zeroHeap).addLine start).addLine field)
      (start.length + 1)).2 = 0) :
    HeadRead zeroHeap (start ++ CRLF ++ (field ++ CRLF ++ (CRLF ++ rest)))
      (oneFieldData start field) rest := by
  have hscan {n : Nat} {line rest : Bytes} (hline : NoEol line) (hff : 255 ∉ line)
      (hlen : line.length < n) : scanLine n (line ++ CRLF ++ rest) = (.eol, line, rest) :=
    scanLine_line hline hff (.crlf rest) (by simp [CRLF]) hlen
  have hinit : (netDataInit zeroHeap).buf.len = 0 := rfl
  have hlen₁ : ((netDataInit zeroHeap).addLine start).buf.len = start.length + 1 := by
    rw [addLine_len, hinit, Nat.zero_add]
  have hdata : oneFieldData start field = (netParseHeader
      (((netDataInit zeroHeap).addLine start).addLine field) (start.length + 1)).1 := by
    rw [oneFieldData]
    rfl
  have hlen₂ := netParseHeader_len (((netDataInit zeroHeap).addLine start).addLine field)
    (start.length + 1)
  rw [← hdata, addLine_len, hlen₁] at hlen₂
  have hblank : HeadersRead (oneFieldData start field) (CRLF ++ rest) (oneFieldData start field)
      rest := by
    refine .last (hscan (by simp [NoEol] : NoEol []) (by simp) ?_)
    rw [headRoom, hlen₂, List.length_nil]
    omega
  have hparsed : netParseHeader (((netDataInit zeroHeap).addLine start).addLine field)
      ((netDataInit zeroHeap).addLine start).buf.len = (oneFieldData start field, 0) := by
    rw [hlen₁]
    exact Prod.ext hdata.symm hparse
  refine .lines (hscan hstart.1 hstart.2.1 ?_) hstart.2.2
    (.next (hscan hfield.1 hfield.2.1 ?_) hfield.2.2 hparsed hblank)
  · rw [headRoom, hinit]
    omega
  · rw [headRoom, hlen₁]
    omega

/-- A chunked response whose first size line is empty. -/
def blankResponse : Bytes :=
  bytesOf "HTTP/1.1 200 OK" ++ CRLF ++ (bytesOf "Transfer-Encoding: chunked" ++ CRLF ++
    (CRLF ++ (CRLF ++ bytesOf "next")))

/-- The response as it is parsed. -/
def blankRsp : NetRsp :=
  (netParseRsp {
    data := oneFieldData (bytesOf "HTTP/1.1 200 OK") (bytesOf "Transfer-Encoding: chunked")
    code := 0, verMajor := 0, verMinor := 0, httpMsg := 0 }).1

/-- It ends the handler with -1 and leaves "next" to be read. -/
theorem rspHandler_unsafe_blank : ¬ RspSafe zeroHeap (.serving blankResponse) := by
  have hread : HeadRead zeroHeap blankResponse
      (oneFieldData (bytesOf "HTTP/1.1 200 OK") (bytesOf "Transfer-Encoding: chunked"))
      (CRLF ++ bytesOf "next") :=
    headRead_oneField (by decide) (by decide) (by decide) (by decide +kernel)
  have hrun : BodyRun blankRsp.data (CRLF ++ bytesOf "next") (-1) [] := by
    have hblank : scanLine (HTTP_CHUNK_HEADER_MAXLEN - 1) ([] ++ CRLF ++ bytesOf "next") =
        (.eol, [], bytesOf "next") :=
      scanLine_line (by decide) (by decide) (.crlf _) (by simp [CRLF]) (by decide)
    exact .chunked (by decide +kernel) (by decide +kernel) (.blank hblank)
  have hfail : OpenFailure zeroHeap ((Wire.serving blankResponse).unread .server)
      (rspHead blankRsp ++ []) := by
    rw [Wire.serving_unread]
    refine .intro hread (Prod.ext ?_ (by decide +kernel)) (by decide +kernel) hrun (by decide)
    rw [blankRsp]
  exact not_rspSafe (Wire.serving_ok _) (Wire.serving_live _) (Wire.serving_willing _).live hfail
    ((Wire.serving_willing _).takes _)

end HttpProxy
