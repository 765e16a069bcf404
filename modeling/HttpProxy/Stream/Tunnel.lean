/-
  HttpProxy.Stream.Tunnel

  The copy loops that run until a connection ends: the two directions of a CONNECT
  tunnel, and the relay of a response of HTTP/1.0.  Each copies 64 KiB at a time, which
  is more than a read buffer holds, so that a write conn_copy does not look at is
  noticed by the next one.  What arrives is the whole stream, or as much of it as the
  other connection takes (`Wire.deliver`).
-/

import HttpProxy.Stream.Response
import HttpProxy.Stream.Copy

namespace HttpProxy

open Lib

-- ============================================================================
-- Programs that do not send
-- ============================================================================

/-- The operation sends on the connection `r`. -/
def IoOp.Sends (r : Role) : IoOp → Prop
  | .sys r' (.send _) => r' = r
  | _ => False

/-- Nothing the program can do sends on the connection `r`. -/
abbrev Silent {α : Type} (r : Role) (p : Io α) : Prop := p.Uses fun o => ¬ o.Sends r

section

variable {r r' : Role} {α : Type}

theorem Wire.step_sent {o : IoOp} {w w' : Wire} {x : o.Res} (h : Wire.step o w = some (x, w'))
    (ho : ¬ o.Sends r) : (w'.sock r).sent = (w.sock r).sent := by
  have hset {r' : Role} {s : Sock} (hs : r' = r → s.sent = (w.sock r).sent) :
      ((w.set r' s).sock r).sent = (w.sock r).sent := by
    by_cases hr : r' = r
    · rw [hr, set_sock_self]
      exact hs hr
    · rw [set_sock_of_ne _ _ (Ne.symm hr)]
  cases o with
  | setBuf r' io =>
      simp only [Wire.step] at h
      split at h
      · simp only [Option.some.injEq, Prod.mk.injEq] at h
        exact h.2 ▸ hset fun hr => hr ▸ rfl
      · exact absurd h (by simp)
  | sys r' q =>
      simp only [Wire.step, Option.some.injEq, Prod.mk.injEq] at h
      rw [← h.2]
      apply hset
      intro hr
      cases q with
      | recv len => exact ((w.sock r').recv_sent len).trans (hr ▸ rfl)
      | send data => exact absurd hr ho
  | close r' =>
      simp only [Wire.step, Option.some.injEq, Prod.mk.injEq] at h
      exact h.2 ▸ hset fun hr => (w.sock r').close_sent.trans (hr ▸ rfl)
  | mainStat | stat _ | getBuf _ | yield _ _ | mark _ | log _ =>
      simp only [Wire.step, Option.some.injEq, Prod.mk.injEq] at h
      rw [← h.2]
  | ub => exact Empty.elim x

/-- A silent program leaves what was sent as it is. -/
theorem Silent.sent {p : Io α} {w w' : Wire} {a : α} (hp : Silent r p) (h : Evals p w a w') :
    (w'.sock r).sent = (w.sock r).sent := by
  induction h with
  | ret a w => rfl
  | call hm _ ih => exact (ih (hp.2 _)).trans (Wire.step_sent hm hp.1)
  | iter _ ih => exact ih hp.unroll

theorem silent_mainStat : Silent r Io.mainStat := ⟨not_false, fun _ => trivial⟩

theorem silent_getBuf : Silent r (Io.getBuf r') := ⟨not_false, fun _ => trivial⟩

theorem silent_setBuf (io : IoBuf) : Silent r (Io.setBuf r' io) := ⟨not_false, fun _ => trivial⟩

theorem silent_close : Silent r (Io.close r') := ⟨not_false, fun _ => trivial⟩

theorem connOpen_silent : Silent r (connOpen r') := ⟨not_false, fun _ => trivial⟩

theorem connTryIo_silent {q : SysReq} (b : Bool) (h : ¬ (IoOp.sys r' q).Sends r) :
    Silent r (connTryIo r' q b) := by
  refine ⟨fun _ => silent_mainStat.bind fun m => ?_, fun _ => trivial⟩
  cases m with
  | exiting => trivial
  | running =>
      refine ⟨h, fun x => ?_⟩
      cases x with
      | ok bs => trivial
      | zero => trivial
      | err => trivial
      | again =>
          cases b with
          | true => exact ⟨not_false, fun _ => trivial⟩
          | false => trivial

theorem connWrite_silent (data : Bytes) (h : r' ≠ r) : Silent r (connWrite r' data) := by
  have hloop : Silent r (connWriteLoop r' data) := by
    refine ⟨fun data => ?_, fun _ => trivial⟩
    dsimp only
    split
    · trivial
    · refine connOpen_silent.bind fun b => ?_
      refine (connTryIo_silent (q := .send data) b h).bind fun x => ?_
      cases x with
      | none => exact silent_close.bind fun _ => trivial
      | some bs => exact silent_getBuf.bind fun _ => (silent_setBuf _).bind fun _ => trivial
  refine ⟨not_false, fun st => ?_⟩
  cases st with
  | closed => exact silent_close.bind fun _ => trivial
  | used => exact hloop
  | free => exact hloop

theorem connWriteN_silent (data : Bytes) (n : Int) (h : r' ≠ r) :
    Silent r (connWriteN r' data n) := by
  unfold connWriteN
  split
  · exact ⟨not_false, fun x => Empty.elim x⟩
  · exact connWrite_silent _ h

theorem connAdvance_silent (n : Int) : Silent r (connAdvance r' n) :=
  silent_getBuf.bind fun _ => silent_setBuf _

/-- `conn_copy` only sends on the connection it copies to. -/
theorem connCopy_silent {out inp : Role} (len : Int) (h : out ≠ r) :
    Silent r (connCopy out inp len) := by
  have hloop (len : Int) : Silent r (connCopyLoop out inp len) := by
    refine ⟨fun len => ?_, fun _ => trivial⟩
    dsimp only
    split
    · trivial
    · refine silent_getBuf.bind fun b => (silent_setBuf _).bind fun _ => ?_
      refine connOpen_silent.bind fun b => ?_
      refine (connTryIo_silent (q := .recv CONN_IOBUF_SIZE) b not_false).bind fun x => ?_
      cases x with
      | none => exact silent_close.bind fun _ => trivial
      | some bs =>
          refine silent_getBuf.bind fun b => (silent_setBuf _).bind fun _ => ?_
          refine (connWriteN_silent _ _ h).bind fun ret => ?_
          split
          · trivial
          · exact (connAdvance_silent _).bind fun _ => trivial
  refine silent_getBuf.bind fun b => ?_
  split
  · exact (connWriteN_silent _ _ h).bind fun _ => (connAdvance_silent _).bind fun _ => hloop _
  · exact hloop _

end

-- ============================================================================
-- Copying until the end
-- ============================================================================

/-- As much of `bs` as the connection takes. -/
def Wire.deliver (w : Wire) (r : Role) (bs : Bytes) : Bytes :=
  match w.room r with
  | none => bs
  | some k => bs.take k

/-- From `w` to `w'` everything that arrived on `src` was offered to the other connection,
    in order, and one of the two has come to its end. -/
structure CopiedOut (src : Role) (w w' : Wire) : Prop where
  sent : (w'.sock src.other).sent =
    (w.sock src.other).sent ++ w.deliver src.other (w.unread src)
  ended : (¬ w'.Live src ∧ w'.unread src = []) ∨ ¬ w'.Live src.other

section

variable {w w₁ w' : Wire} {src r : Role} {got put bs : Bytes}

theorem Wire.deliver_willing (h : w.Willing r) (bs : Bytes) : w.deliver r bs = bs := by
  rw [deliver, show w.room r = none from h]

theorem Wire.deliver_room {k : Nat} (h : w.room r = some k) (bs : Bytes) :
    w.deliver r bs = bs.take k := by
  rw [deliver, h]

/-- Bytes for which there is room are all delivered. -/
theorem Wire.deliver_takes (h : w.Takes r bs.length) : w.deliver r bs = bs := by
  rw [deliver]
  cases hroom : w.room r with
  | none => rfl
  | some k => exact List.take_of_length_le (h k hroom)

/-- What is delivered behind a part that was taken. -/
theorem Moved.deliver (h : Moved src w w₁ got put) (htakes : w.Takes src.other put.length)
    (bs : Bytes) : w.deliver src.other (put ++ bs) = put ++ w₁.deliver src.other bs := by
  rw [Wire.deliver, Wire.deliver, h.room]
  cases hroom : w.room src.other with
  | none => rfl
  | some k =>
      have hle := htakes k hroom
      show (put ++ bs).take k = put ++ bs.take (k - put.length)
      rw [List.take_append, List.take_of_length_le hle]

/-- Copying on after a copy that moved `bs`. -/
theorem CopiedOut.prepend (h : Relay src w w₁ bs bs) (htakes : w.Takes src.other bs.length)
    (h' : CopiedOut src w₁ w') : CopiedOut src w w' where
  sent := by
    rw [h'.sent, h.sent, h.unread, h.toMoved.deliver htakes, List.append_assoc]
  ended := h'.ended

/-- One round of such a loop: 64 KiB are copied, or one of the connections ends. -/
theorem connCopy_round (hok : w.Ok) (hlive : w.Live src) :
    (∃ w₁, Evals (connCopy src.other src (64 * 1024)) w 0 w₁ ∧
        (w₁.unread src).length < (w.unread src).length ∧ w₁.Live src ∧
        ∀ w', CopiedOut src w₁ w' → CopiedOut src w w') ∨
      ∃ w', Evals (connCopy src.other src (64 * 1024)) w (-1) w' ∧ CopiedOut src w w' := by
  have hbuf : (w.leftover src).length < 64 * 1024 := by
    have hcap : (w.sock src).io.buf.length ≤ CONN_IOBUF_SIZE := (hok src).2
    have hsize : CONN_IOBUF_SIZE = 16 * 1024 := rfl
    rw [Wire.leftover, List.length_drop]
    omega
  obtain ⟨ret, w', he, ho⟩ := connCopy_eval (64 * 1024) hok (.inl hbuf)
  cases ho with
  | done h hle htakes =>
      have hlen : ((w.unread src).take (64 * 1024)).length = 64 * 1024 := by
        rw [List.length_take]
        omega
      refine .inl ⟨w', he, ?_, h.live hlive, fun w'' h'' => h''.prepend h (by rwa [hlen])⟩
      have hsplit := congrArg List.length h.unread
      rw [List.length_append, hlen] at hsplit
      omega
  | ended k h hdead _ _ htakes hall =>
      have hk : (w.unread src).length = k := hall hlive
      have htake : (w.unread src).take k = w.unread src := by rw [← hk, List.take_length]
      rw [htake] at h
      refine .inr ⟨w', he, ⟨?_, .inl ⟨hdead, ?_⟩⟩⟩
      · rw [h.sent, Wire.deliver_takes (by rwa [hk])]
      · exact List.append_right_eq_self.mp h.unread.symm
  | broken k h hroom _ =>
      refine .inr ⟨w', he, ⟨?_, .inr fun hlive' => hlive' h.closed⟩⟩
      rw [h.sent, Wire.deliver_room hroom]

/-- A loop whose rounds copy 64 KiB and which ends with the first copy that fails returns,
    and everything that arrives has been offered to the other connection. -/
theorem copyLoop_eval {body : Unit → Io (Unit ⊕ Int)} {x : Int}
    (hnext : ∀ w w₁, Evals (connCopy src.other src (64 * 1024)) w 0 w₁ →
      Evals (body ()) w (.inl ()) w₁)
    (hlast : ∀ w w₁, Evals (connCopy src.other src (64 * 1024)) w (-1) w₁ →
      Evals (body ()) w (.inr x) w₁)
    (hok : w.Ok) (hlive : w.Live src) :
    ∃ w', Evals (Prog.loop body ()) w x w' ∧ CopiedOut src w w' := by
  generalize hn : (w.unread src).length = n
  induction n using Nat.strongRecOn generalizing w with
  | ind n ih =>
      rcases connCopy_round hok hlive with ⟨w₁, he, hlt, hlive₁, hgo⟩ | ⟨w', he, h⟩
      · rw [hn] at hlt
        obtain ⟨w', he', h'⟩ := ih _ hlt (evals_ok he hok) hlive₁ rfl
        exact ⟨w', Eval.loop_inl (hnext w w₁ he) he', hgo w' h'⟩
      · exact ⟨w', Eval.loop_inr (hlast w w' he), h⟩

-- ============================================================================
-- CONNECT
-- ============================================================================

/-- The copy loop of a CONNECT handler. -/
theorem netTunnel_eval (hok : w.Ok) (hlive : w.Live src) :
    ∃ w', Evals (netTunnel src.other src) w (-1) w' ∧ CopiedOut src w w' := by
  refine copyLoop_eval (fun w w₁ he => ?_) (fun w w₁ he => ?_) hok hlive
  · exact he.bind (by simp)
  · exact he.bind (by simp)

theorem netTunnel_silent {out inp : Role} (h : out ≠ r) : Silent r (netTunnel out inp) := by
  refine ⟨fun _ => (connCopy_silent _ h).bind fun ret => ?_, fun _ => trivial⟩
  split <;> trivial

/-- `net_connect_req_handler` from its answer on, once `net_connect_to_server` has returned
    a connection (without one the client is sent the 502 message). -/
def netConnectReqHandler : Io Int := do
  Io.mark .ok200
  let ret ← connWrite .client msg200
  if ret ≠ 0 then do
    netBadGateway .client
    return -1
  else netTunnel .server .client

/-- Once a server is connected, whatever the client sends, in however many segments: the
    client gets the answer, and nothing else from this coroutine, and the server gets the
    stream of the client byte for byte until one of the two ends.  A client that does not take
    the answer gets what it took, and the server gets nothing. -/
theorem connectReq_relays (hok : w.Ok) (hlive : w.Live .client) :
    ∃ w', Evals netConnectReqHandler w (-1) w' ∧
      (w'.sock .client).sent = (w.sock .client).sent ++ w.deliver .client msg200 ∧
      (w.Takes .client msg200.length →
        (w'.sock .server).sent =
            (w.sock .server).sent ++ w.deliver .server (w.unread .client) ∧
          ((¬ w'.Live .client ∧ w'.unread .client = []) ∨ ¬ w'.Live .server)) ∧
      (¬ w.Takes .client msg200.length →
        (w'.sock .server).sent = (w.sock .server).sent ∧ ¬ w'.Live .client) := by
  simp only [netConnectReqHandler, Io.mark, Prog.bind_eq, Prog.op_bind, evals_mark]
  by_cases htakes : w.Takes .client msg200.length
  · have hother : w.Live Role.server.other := hlive
    obtain ⟨w₁, he₁, h₁, hserver⟩ := connWrite_takes hok hother htakes
    have hlive₁ : w₁.Live .client := h₁.live_other hlive
    obtain ⟨w', he', h'⟩ := netTunnel_eval (evals_ok he₁ hok) hlive₁
    have hsent₁ : (w₁.sock .server).sent = (w.sock .server).sent := congrArg Sock.sent hserver
    have hroom₁ : w₁.room .server = w.room .server := by
      rw [Wire.room, Wire.room, hserver, h₁.mainStat]
    have hunread₁ : w₁.unread .client = w.unread .client := h₁.unreadDst
    refine ⟨w', he₁.bind ?_, ?_, fun _ => ⟨?_, h'.ended⟩, fun hnot => absurd htakes hnot⟩
    · simp only [ne_eq, not_true_eq_false, if_false]
      exact he'
    · have hsilent : Silent .client (netTunnel .server .client) := netTunnel_silent (by decide)
      rw [hsilent.sent he', Wire.deliver_takes htakes]
      exact h₁.sent
    · have hsent := h'.sent
      rw [hunread₁, show Role.client.other = .server from rfl, hsent₁, Wire.deliver, hroom₁]
        at hsent
      exact hsent
  · obtain ⟨k, hroom, hk⟩ : ∃ k, w.room .client = some k ∧ k < msg200.length := by
      simpa [Wire.Takes] using htakes
    obtain ⟨w', he', h', hserver⟩ := connWrite_breaks hok
      (show w.room Role.server.other = some k from hroom) hk
    have hclosed : (w'.sock .client).stat = .closed := h'.closed
    refine ⟨w', he'.bind ?_, ?_, fun hyes => absurd hyes htakes,
      fun _ => ⟨congrArg Sock.sent hserver, fun hlive' => hlive' hclosed⟩⟩
    · simp [netBadGateway, Io.stat, hclosed]
    · rw [Wire.deliver_room hroom]
      exact h'.sent

/-- A client that sends "ab" behind its request, then nothing, and "c" in the end. -/
theorem connectReq_relays_abc : ∃ w',
    Evals netConnectReqHandler
      (.fresh ([.data 97 [98], .block, .data 99 []], [.accept 3, .block]) ([], [.block])) (-1) w' ∧
    (w'.sock .client).sent = msg200 ∧ (w'.sock .server).sent = [97, 98, 99] := by
  obtain ⟨w', he, hclient, hserver, _⟩ := connectReq_relays
    (Wire.fresh_ok ([.data 97 [98], .block, .data 99 []], [.accept 3, .block]) ([], [.block]))
    (Wire.fresh_live _ _ _)
  have hwilling : (Wire.fresh ([.data 97 [98], .block, .data 99 []], [.accept 3, .block])
    ([], [.block])).Willing .client := rfl
  exact ⟨w', he, hclient.trans (by decide), (hserver (hwilling.takes _)).1.trans (by decide)⟩

-- ============================================================================
-- HTTP/1.0
-- ============================================================================

/-- The relay of the body of a response of HTTP/1.0: both connections are closed behind it. -/
theorem netRelayHttp10_eval (hok : w.Ok) (hlive : w.Live .server) :
    ∃ w', Evals netRelayHttp10 w 0 w' ∧
      (w'.sock .client).sent =
        (w.sock .client).sent ++ w.deliver .client (w.unread .server) ∧
      ¬ w'.Live .client ∧ ¬ w'.Live .server := by
  have hloop : ∃ w₁, Evals (Prog.loop (fun _ : Unit => do
      let ret ← connCopy .client .server (64 * 1024)
      if ret < 0 then return Sum.inr (0 : Int) else return .inl ()) ()) w 0 w₁ ∧
        CopiedOut .server w w₁ :=
    copyLoop_eval (fun w w₁ he => he.bind (by simp)) (fun w w₁ he => he.bind (by simp)) hok hlive
  obtain ⟨w₁, he, h₁⟩ := hloop
  have hsent := h₁.sent
  refine ⟨_, he.bind (by
    simp only [Io.close, Prog.bind_eq, Prog.op_bind, evals_close, Prog.pure_eq, evals_ret, true_and]
    exact rfl), ?_, ?_, ?_⟩
  · rw [Wire.set_sock_of_ne _ _ (by decide), Wire.set_sock_self, Sock.close_sent]
    exact hsent
  · rw [Wire.Live, Wire.set_sock_of_ne _ _ (by decide), Wire.set_sock_self, Sock.close_stat]
    exact not_not_intro rfl
  · rw [Wire.Live, Wire.set_sock_self, Sock.close_stat]
    exact not_not_intro rfl

/-- A response whose version is HTTP/1.0 or below (its `version`, the product in 32 bits, is at
    most 100): the client gets the head as it was parsed and, byte for byte, everything the
    server sends until it ends, or as much of both as the client takes; then both connections
    are closed, whatever the fields of the head say about a length. -/
theorem http10_relays {heap : Nat → Bytes} {data : NetData} {rsp : NetRsp} {rest : Bytes}
    (hok : w.Ok) (hlive : w.Live .server) (hread : HeadRead heap (w.unread .server) data rest)
    (hparse : netParseRsp { data, code := 0, verMajor := 0, verMinor := 0, httpMsg := 0 } =
      (rsp, 0))
    (hver : rsp.version ≤ 100) :
    ∃ w', Evals (netHttpRspHandler heap) w rsp.code w' ∧
      (w'.sock .client).sent =
        (w.sock .client).sent ++ w.deliver .client (rspHead rsp ++ rest) ∧
      ¬ w'.Live .client ∧ ¬ w'.Live .server := by
  obtain ⟨w₀, hok₀, h₀, hgo⟩ := netHttpRspHandler_fetch hok
  rw [show w.unread .server = w₀.unread .server from h₀.unread] at hread
  obtain ⟨got, w₁, hfetch, h₁, hu₁⟩ := hread.evals hok₀ (h₀.live hlive)
  have hok₁ := evals_ok hfetch hok₀
  have hlive₁ : w₁.Live .server := h₁.live (h₀.live hlive)
  have h₀₁ := (h₀.trans h₁).toMoved
  have hsent₁ : (w₁.sock .client).sent = (w.sock .client).sent := by
    have hsent := h₀₁.sent
    rwa [List.append_nil, List.append_nil] at hsent
  have hdeliver₁ (bs : Bytes) : w.deliver .client bs = w₁.deliver .client bs :=
    h₀₁.deliver Wire.takes_zero bs
  -- what is left to do is to write the head and to relay what follows
  have hhandler {w₂ w' : Wire} {x : Int}
      (hwrite : Evals (connWrite .client (rspHead rsp)) w₁ x w₂)
      (hrelay : Evals netRelayHttp10 w₂ 0 w') :
      Evals (netHttpRspHandler heap) w rsp.code w' := by
    refine (hgo _ _).mpr (hfetch.bind ?_)
    simp only [hparse, ne_eq, not_true_eq_false, if_false]
    refine (netRelayRsp_evals rsp).mpr (hwrite.bind ?_)
    rw [relayBody, if_neg (by omega)]
    exact hrelay.bind ((logRsp_evals rsp 0).mpr ⟨rfl, rfl⟩)
  rcases connWrite_eval .server hok₁ (rspHead_ne_nil rsp) with
    ⟨w₂, hwrite, h₂, hserver, htakes⟩ | ⟨k, w₂, hwrite, h₂, hserver, hroom, hk⟩
  · have hlive₂ : w₂.Live .server := h₂.live hlive₁
    obtain ⟨w', hrelay, hsent, hclosed⟩ := netRelayHttp10_eval (evals_ok hwrite hok₁) hlive₂
    refine ⟨w', hhandler hwrite hrelay, ?_, hclosed⟩
    have hu₂ : w₂.unread .server = rest := h₂.unread.symm.trans hu₁
    have hsent₂ : (w₂.sock .client).sent = (w₁.sock .client).sent ++ rspHead rsp := h₂.sent
    have hdeliver₂ := h₂.toMoved.deliver htakes rest
    rw [hsent, hsent₂, hu₂, hsent₁, hdeliver₁, List.append_assoc]
    exact congrArg _ hdeliver₂.symm
  · have hclosed₂ : (w₂.sock .client).stat = .closed := h₂.closed
    have hlive₂ : w₂.Live .server := by
      rw [Wire.Live, hserver]
      exact hlive₁
    obtain ⟨w', hrelay, hsent, hclosed⟩ := netRelayHttp10_eval (evals_ok hwrite hok₁) hlive₂
    refine ⟨w', hhandler hwrite hrelay, ?_, hclosed⟩
    have hroom₂ : w₂.room .client = some 0 := h₂.room
    have hsent₂ : (w₂.sock .client).sent = (w₁.sock .client).sent ++ (rspHead rsp).take k := h₂.sent
    rw [hsent, hsent₂, hsent₁, hdeliver₁, Wire.deliver_room hroom₂, List.take_zero,
      List.append_nil, Wire.deliver_room (show w₁.room .client = some k from hroom),
      List.take_append_of_le_length (Nat.le_of_lt hk)]

end

/-- A response of HTTP/1.0 whose body is longer than its Content-Length. -/
def oldResponse : Bytes :=
  bytesOf "HTTP/1.0 200 OK" ++ CRLF ++ (bytesOf "Content-Length: 1" ++ CRLF ++
    (CRLF ++ [97, 98, 99]))

/-- The response as it is parsed. -/
def oldRsp : NetRsp :=
  (netParseRsp {
    data := oneFieldData (bytesOf "HTTP/1.0 200 OK") (bytesOf "Content-Length: 1")
    code := 0, verMajor := 0, verMinor := 0, httpMsg := 0 }).1

theorem http10_relays_old : ∃ w',
    Evals (netHttpRspHandler zeroHeap) (.serving oldResponse) 200 w' ∧
    (w'.sock .client).sent = oldResponse ∧ ¬ w'.Live .client ∧ ¬ w'.Live .server := by
  have hread : HeadRead zeroHeap ((Wire.serving oldResponse).unread .server)
      (oneFieldData (bytesOf "HTTP/1.0 200 OK") (bytesOf "Content-Length: 1")) [97, 98, 99] := by
    rw [Wire.serving_unread]
    exact headRead_oneField (by decide) (by decide) (by decide) (by decide +kernel)
  have hparse : netParseRsp {
      data := oneFieldData (bytesOf "HTTP/1.0 200 OK") (bytesOf "Content-Length: 1")
      code := 0, verMajor := 0, verMinor := 0, httpMsg := 0 } = (oldRsp, 0) :=
    Prod.ext (by rw [oldRsp]) (by decide +kernel)
  obtain ⟨w', he, hsent, hclosed⟩ := http10_relays (Wire.serving_ok _) (Wire.serving_live _) hread
    hparse (by decide +kernel)
  have hcode : oldRsp.code = 200 := by decide +kernel
  have hhead : rspHead oldRsp ++ [97, 98, 99] = oldResponse := by decide +kernel
  have hwilling : (Wire.serving oldResponse).Willing .client := Wire.serving_willing _
  rw [hcode] at he
  rw [hhead, Wire.deliver_willing hwilling] at hsent
  exact ⟨w', he, hsent, hclosed⟩

end HttpProxy
