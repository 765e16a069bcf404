/-
  HttpProxy.Stream.Segments

  What the handlers do does not depend on how the bytes arrive.  Two wires are `Alike`
  when the same bytes are left to be read from `src`, in whatever segments and with
  EAGAIN anywhere, and the other connection takes everything, in whatever pieces.  Each
  call of conn_io.c keeps this (`connGets_alike`, `connWrite_alike`, `connCopy_alike`),
  and the handlers are made of such calls (`HttpProxy.Lib.Simulate`).

  This is a statement about every stream: well formed or not, complete or cut off.
-/

import HttpProxy.Lib.Simulate
import HttpProxy.Stream.Pipeline
import HttpProxy.Stream.Responses
import HttpProxy.Stream.Tunnel

namespace HttpProxy

open Lib

/-- The same bytes are left to be read from `src`, in whatever segments. -/
structure ReadAlike (src : Role) (w₁ w₂ : Wire) : Prop where
  ok₁ : w₁.Ok
  ok₂ : w₂.Ok
  mainStat : w₂.mainStat = w₁.mainStat
  stat : (w₂.sock src).stat = (w₁.sock src).stat
  unread : w₂.unread src = w₁.unread src
  ready : w₁.Live src ∨ w₁.unread src = []

/-- The other connection has been sent the same, and takes whatever else is written to it. -/
structure SentAlike (src : Role) (w₁ w₂ : Wire) : Prop where
  stat : (w₂.sock src.other).stat = (w₁.sock src.other).stat
  sent : (w₂.sock src.other).sent = (w₁.sock src.other).sent
  willing₁ : w₁.Willing src.other
  willing₂ : w₂.Willing src.other

/-- The same bytes are left to be read, and the same have been written. -/
structure Alike (src : Role) (w₁ w₂ : Wire) : Prop where
  read : ReadAlike src w₁ w₂
  written : SentAlike src w₁ w₂

section

variable {src : Role} {w w₁ w₂ w₁' w₂' : Wire} {got got₁ got₂ put : Bytes} {n : Nat}

theorem ReadAlike.ready₂ (h : ReadAlike src w₁ w₂) : w₂.Live src ∨ w₂.unread src = [] := by
  rw [Wire.Live, h.stat, h.unread]
  exact h.ready

theorem SentAlike.moved (h : SentAlike src w₁ w₂) (h₁ : Moved src w₁ w₁' got₁ put)
    (h₂ : Moved src w₂ w₂' got₂ put) : SentAlike src w₁' w₂' where
  stat := by rw [h₁.stat, h₂.stat, h.stat]
  sent := by rw [h₁.sent, h₂.sent, h.sent]
  willing₁ := h₁.willing h.willing₁
  willing₂ := h₂.willing h.willing₂

/-- The end of a stream, and what is still to be read, after something has been read. -/
theorem Moved.ready (h : Moved src w w' got put) (hready : w.Live src ∨ w.unread src = [])
    (hstat : (w'.sock src).stat = (w.sock src).stat ∨ w'.unread src = []) :
    w'.Live src ∨ w'.unread src = [] := by
  rcases hstat with hstat | hnil
  · rw [Wire.Live, hstat]
    refine hready.imp_right fun hnil => ?_
    exact (List.append_eq_nil_iff.mp (h.unread.symm.trans hnil)).2
  · exact .inr hnil

theorem ReadAlike.moved (h : ReadAlike src w₁ w₂) (h₁ : Moved src w₁ w₁' got₁ put)
    (h₂ : Moved src w₂ w₂' got₂ put) (hok₁ : w₁'.Ok) (hok₂ : w₂'.Ok)
    (hunread : w₂'.unread src = w₁'.unread src)
    (hstat : (w₂'.sock src).stat = (w₁'.sock src).stat)
    (hend : (w₁'.sock src).stat = (w₁.sock src).stat ∨ w₁'.unread src = []) :
    ReadAlike src w₁' w₂' where
  ok₁ := hok₁
  ok₂ := hok₂
  mainStat := by rw [h₁.mainStat, h₂.mainStat, h.mainStat]
  stat := hstat
  unread := hunread
  ready := h₁.ready h.ready hend

-- ============================================================================
-- The calls of conn_io.c
-- ============================================================================

/-- After a line has been read the connection is as it was, or at its end. -/
theorem LineRead.stat {got : Bytes} (h : LineRead src w n got w') :
    (w'.sock src).stat =
      if (scanLine n (w.unread src)).1 = .eof then .closed else (w.sock src).stat := by
  split
  · rename_i heof
    have hdead := h.eof heof
    simpa [Wire.Live] using hdead
  · rename_i hne
    exact (h.relay hne).statSrc

/-- A line is read in both. -/
theorem connGets_both (lenLimit : Nat) (buf : Strbuf) (h : ReadAlike src w₁ w₂) :
    ∃ a w₁' w₂', Evals (connGets src lenLimit buf) w₁ a w₁' ∧
      Evals (connGets src lenLimit buf) w₂ a w₂' ∧ ReadAlike src w₁' w₂' ∧
      ∃ got₁ got₂, Moved src w₁ w₁' got₁ [] ∧ Moved src w₂ w₂' got₂ [] := by
  obtain ⟨n, hlen⟩ : ∃ n, buf.len + 1 + n = lenLimit ∨
      lenLimit < buf.len + 1 ∧ (w₁.unread src).length < n := by
    by_cases hle : buf.len + 1 ≤ lenLimit
    · exact ⟨lenLimit - (buf.len + 1), by omega⟩
    · exact ⟨(w₁.unread src).length + 1, by omega⟩
  obtain ⟨got₁, w₁', he₁, h₁⟩ := connGets_eval h.ok₁ h.ready hlen
  obtain ⟨got₂, w₂', he₂, h₂⟩ := connGets_eval h.ok₂ h.ready₂ (by rw [h.unread]; exact hlen)
  have hunread : w₂'.unread src = w₁'.unread src := by rw [h₁.unread, h₂.unread, h.unread]
  have hstat : (w₂'.sock src).stat = (w₁'.sock src).stat := by
    rw [h₁.stat, h₂.stat, h.unread, h.stat]
  rw [h.unread] at he₂
  refine ⟨_, w₁', w₂', he₁, he₂, ?_, got₁, got₂, h₁.moved, h₂.moved⟩
  apply h.moved h₁.moved h₂.moved (evals_ok he₁ h.ok₁) (evals_ok he₂ h.ok₂) hunread hstat
  rw [h₁.stat]
  split
  · rename_i heof
    exact .inr (h₁.unread.trans (scanLine_eof heof))
  · exact .inl rfl

theorem connGets_readAlike (lenLimit : Nat) (buf : Strbuf) :
    Simulates Wire.step (ReadAlike src) (connGets src lenLimit buf) fun _ => ReadAlike src := by
  apply Simulates.of_evals
  intro w₁ w₂ h
  obtain ⟨a, w₁', w₂', he₁, he₂, h', -⟩ := connGets_both lenLimit buf h
  exact ⟨a, w₁', w₂', he₁, he₂, h'⟩

theorem connGets_alike (lenLimit : Nat) (buf : Strbuf) :
    Simulates Wire.step (Alike src) (connGets src lenLimit buf) fun _ => Alike src := by
  apply Simulates.of_evals
  intro w₁ w₂ h
  obtain ⟨a, w₁', w₂', he₁, he₂, h', got₁, got₂, h₁, h₂⟩ := connGets_both lenLimit buf h.read
  exact ⟨a, w₁', w₂', he₁, he₂, h', h.written.moved h₁ h₂⟩

theorem connWrite_alike (data : Bytes) :
    Simulates Wire.step (Alike src) (connWrite src.other data) fun _ => Alike src := by
  apply Simulates.of_evals
  intro w₁ w₂ h
  have hwilling₁ := h.written.willing₁
  have hwilling₂ := h.written.willing₂
  obtain ⟨w₁', he₁, h₁, -⟩ :=
    connWrite_takes h.read.ok₁ hwilling₁.live (hwilling₁.takes data.length)
  obtain ⟨w₂', he₂, h₂, -⟩ :=
    connWrite_takes h.read.ok₂ hwilling₂.live (hwilling₂.takes data.length)
  refine ⟨0, w₁', w₂', he₁, he₂, ?_, h.written.moved h₁.toMoved h₂.toMoved⟩
  have hunread : w₂'.unread src = w₁'.unread src := by
    have hu₁ : w₁.unread src = w₁'.unread src := h₁.unread
    have hu₂ : w₂.unread src = w₂'.unread src := h₂.unread
    rw [← hu₁, ← hu₂, h.read.unread]
  have hstat : (w₂'.sock src).stat = (w₁'.sock src).stat := by
    rw [h₁.statSrc, h₂.statSrc, h.read.stat]
  exact h.read.moved h₁.toMoved h₂.toMoved (evals_ok he₁ h.read.ok₁) (evals_ok he₂ h.read.ok₂)
    hunread hstat (.inl h₁.statSrc)

/-- A copy where nothing is left to be read. -/
theorem connCopy_end (out : Role) {len : Int} (hlen : len ≠ 0) (hok : w.Ok)
    (hu : w.unread src = []) :
    ∃ w', Evals (connCopy out src len) w (-1) w' ∧ Moved src w w' [] [] ∧ ¬ w'.Live src := by
  rw [Wire.unread_eq, List.append_eq_nil_iff] at hu
  obtain ⟨hleft, hin⟩ := hu
  rcases connCopyBody_fill out hlen hok hleft with
    ⟨bs, w₁, hne, -, h₁, hleft₁, -⟩ | ⟨w', he, hmoved, hdead, -⟩
  · have hunread := h₁.unread
    rw [Wire.unread_eq, hleft, hin, Wire.unread_eq, hleft₁] at hunread
    exact absurd (List.append_eq_nil_iff.mp (List.append_eq_nil_iff.mp hunread.symm).2).1 hne
  · exact ⟨w', (connCopy_empty hleft).mpr (Eval.loop_inr he), hmoved, hdead⟩

/-- A copy to a connection that takes everything. -/
theorem connCopy_willing (n : Nat) (hok : w.Ok) (hwilling : w.Willing src.other)
    (hready : w.Live src ∨ w.unread src = []) :
    ∃ w', Evals (connCopy src.other src n) w (if n ≤ (w.unread src).length then 0 else -1) w' ∧
      Moved src w w' ((w.unread src).take n) ((w.unread src).take n) ∧
      (w'.sock src).stat =
        if n ≤ (w.unread src).length then (w.sock src).stat else .closed := by
  obtain ⟨ret, w', he, ho⟩ := connCopy_eval n hok (.inr (hwilling.takes n))
  cases ho with
  | done h hle _ =>
      rw [if_pos hle, if_pos hle]
      exact ⟨w', he, h.toMoved, h.statSrc⟩
  | ended k h hdead hk hle _ hall =>
      have hlen : (w.unread src).length = k := by
        rcases hready with hlive | hnil
        · exact hall hlive
        · rw [hnil, List.length_nil] at hle ⊢
          omega
      have htake : (w.unread src).take n = (w.unread src).take k := by
        rw [List.take_of_length_le (by omega), List.take_of_length_le (by omega)]
      rw [if_neg (by omega), if_neg (by omega), htake]
      exact ⟨w', he, h, by simpa [Wire.Live] using hdead⟩
  | broken k _ hroom _ => exact absurd hwilling (Wire.not_willing hroom)

theorem connCopy_alike (len : Int) :
    Simulates Wire.step (Alike src) (connCopy src.other src len) fun _ => Alike src := by
  by_cases hneg : len < 0
  · -- a negative length is only survived where nothing is left to be read
    intro w₁ w₂ h ret w₁' he
    rcases connCopy_neg src.other hneg h.read.ok₁ with hnone | ⟨u, he', h₁, hdead, hend⟩
    · exact absurd he (hnone ret w₁')
    obtain ⟨rfl, rfl⟩ := he.det he'
    have hlen : len ≠ 0 := by omega
    have hnil : w₁.unread src = [] := h.read.ready.elim hend id
    obtain ⟨w₂', he₂, h₂, hdead₂⟩ :=
      connCopy_end src.other hlen h.read.ok₂ (h.read.unread.trans hnil)
    have hnil₁ : w₁'.unread src = [] := h₁.unread.symm.trans hnil
    have hnil₂ : w₂'.unread src = [] := h₂.unread.symm.trans (h.read.unread.trans hnil)
    have hstat : (w₂'.sock src).stat = (w₁'.sock src).stat := by
      rw [show (w₁'.sock src).stat = .closed by simpa [Wire.Live] using hdead,
        show (w₂'.sock src).stat = .closed by simpa [Wire.Live] using hdead₂]
    refine ⟨w₂', he₂, ?_, h.written.moved h₁ h₂⟩
    exact h.read.moved h₁ h₂ (evals_ok he h.read.ok₁) (evals_ok he₂ h.read.ok₂)
      (hnil₂.trans hnil₁.symm) hstat (.inr hnil₁)
  · obtain ⟨n, rfl⟩ := Int.eq_ofNat_of_zero_le (Int.not_lt.mp hneg)
    apply Simulates.of_evals
    intro w₁ w₂ h
    obtain ⟨w₁', he₁, h₁, hstat₁⟩ :=
      connCopy_willing n h.read.ok₁ h.written.willing₁ h.read.ready
    obtain ⟨w₂', he₂, h₂, hstat₂⟩ :=
      connCopy_willing n h.read.ok₂ h.written.willing₂ h.read.ready₂
    have hunread := h.read.unread
    rw [hunread] at he₂ h₂ hstat₂
    rw [h.read.stat] at hstat₂
    have hu₁ : w₁'.unread src = (w₁.unread src).drop n :=
      h₁.unread_rest (List.take_append_drop n _).symm
    have hu₂ : w₂'.unread src = (w₁.unread src).drop n :=
      h₂.unread_rest (hunread.trans (List.take_append_drop n _).symm)
    refine ⟨_, w₁', w₂', he₁, he₂, ?_, h.written.moved h₁ h₂⟩
    apply h.read.moved h₁ h₂ (evals_ok he₁ h.read.ok₁) (evals_ok he₂ h.read.ok₂)
      (hu₂.trans hu₁.symm) (hstat₂.trans hstat₁.symm)
    rw [hstat₁, hu₁]
    split
    · exact .inl rfl
    · exact .inr (List.drop_of_length_le (by omega))

-- ============================================================================
-- core/net_handle.c and core/net_http.c
-- ============================================================================

section

variable {R : Wire → Wire → Prop}

/-- What only reads lines keeps what reading a line keeps. -/
theorem netFetchHeaders_simulates (hgets : ∀ lenLimit buf,
    Simulates Wire.step R (connGets src lenLimit buf) fun _ => R) (data : NetData) :
    Simulates Wire.step R (netFetchHeaders src data) fun _ => R := by
  refine Simulates.loop (fun _ => R) fun data => Simulates.bind (hgets _ _) fun x => ?_
  obtain ⟨ret, buf⟩ := x
  dsimp only
  split
  · exact .ret fun _ _ h => h
  · split <;> exact .ret fun _ _ h => h

theorem netFetchHttp_simulates (hgets : ∀ lenLimit buf,
    Simulates Wire.step R (connGets src lenLimit buf) fun _ => R) (data : NetData) :
    Simulates Wire.step R (netFetchHttp src data) fun _ => R := by
  refine Simulates.bind (hgets _ _) fun x => ?_
  obtain ⟨ret, buf⟩ := x
  dsimp only
  split
  · exact .ret fun _ _ h => h
  · exact netFetchHeaders_simulates hgets _

end

theorem netTransferChunks_alike (buf : Strbuf) :
    Simulates Wire.step (Alike src) (netTransferChunks src.other src buf) fun _ => Alike src := by
  refine Simulates.loop (fun _ => Alike src) fun buf =>
    Simulates.bind (connGets_alike _ _) fun x => ?_
  obtain ⟨ret, buf⟩ := x
  dsimp only
  split
  · exact .ret fun _ _ h => h
  · refine Simulates.bind (connWrite_alike _) fun wret => ?_
    split
    · exact .ret fun _ _ h => h
    · split
      · exact .ret fun _ _ h => h
      · refine Simulates.bind (connCopy_alike _) fun cret => ?_
        split <;> exact .ret fun _ _ h => h

theorem netTransferTrailer_alike (buf : Strbuf) :
    Simulates Wire.step (Alike src) (netTransferTrailer src.other src buf) fun _ => Alike src := by
  refine Simulates.loop (fun _ => Alike src) fun buf =>
    Simulates.bind (connGets_alike _ _) fun x => ?_
  obtain ⟨ret, buf⟩ := x
  dsimp only
  split
  · exact .ret fun _ _ h => h
  · refine Simulates.bind (connWrite_alike _) fun wret => ?_
    split
    · exact .ret fun _ _ h => h
    · split <;> exact .ret fun _ _ h => h

theorem netTransferBody_alike (data : NetData) :
    Simulates Wire.step (Alike src) (netTransferBody src.other src data) fun _ => Alike src := by
  unfold netTransferBody
  split
  · exact .ret fun _ _ h => h
  · split
    · refine Simulates.bind (netTransferChunks_alike _) fun x => ?_
      obtain ⟨ret, buf⟩ := x
      dsimp only
      split
      · exact netTransferTrailer_alike buf
      · exact .ret fun _ _ h => h
    · unfold netTransferLength
      dsimp only
      split
      · exact connCopy_alike _
      · exact .ret fun _ _ h => h

-- ============================================================================
-- net_http_rsp_handler
-- ============================================================================

/-- What a response handler leaves behind: when it has closed the server connection, what has
    not been read of the stream is of no interest any more. -/
structure Handled (w₁ w₂ : Wire) : Prop where
  stat : ∀ r, (w₂.sock r).stat = (w₁.sock r).stat
  sent : (w₂.sock .client).sent = (w₁.sock .client).sent
  alike : w₁.Live .server → Alike .server w₁ w₂

theorem Alike.handled (h : Alike .server w₁ w₂) : Handled w₁ w₂ where
  stat := by
    intro r
    cases r with
    | client => exact h.written.stat
    | server => exact h.read.stat
  sent := h.written.sent
  alike := fun _ => h

theorem netRelayHttp10_alike :
    Simulates Wire.step (Alike .server) netRelayHttp10 fun _ => Handled := by
  have hround (u : Unit) : Simulates Wire.step (Alike .server)
      ((connCopy .client .server (64 * 1024)).bind fun ret =>
        if ret < 0 then .ret (Sum.inr (0 : Int)) else .ret (.inl ()))
      (Sum.elim (fun _ => Alike .server) fun _ => Alike .server) := by
    refine Simulates.bind (connCopy_alike _) fun ret => ?_
    split <;> exact .ret fun _ _ h => h
  refine Simulates.bind (Simulates.loop (fun _ => Alike .server) hround) fun ret => ?_
  apply Simulates.of_evals
  intro w₁ w₂ h
  refine ⟨ret, _, _, .call rfl (.call rfl (.ret ret _)), .call rfl (.call rfl (.ret ret _)), ?_⟩
  constructor
  · intro r
    cases r <;> simp [Wire.set]
  · have hsent : (w₂.sock .client).sent = (w₁.sock .client).sent := h.written.sent
    simp [Wire.set, Sock.close_sent, hsent]
  · intro hlive
    exact absurd (by simp) hlive

/-- `net_bad_gateway` to a client that takes everything. -/
theorem netBadGateway_willing (hok : w.Ok) (hclient : w.Willing .client) :
    ∃ w', Evals (netBadGateway .client) w () w' ∧ Relay .server w w' [] msg502 := by
  obtain ⟨w', hwrite, h, -⟩ := connWrite_takes hok
    (show w.Live Role.server.other from hclient.live) (hclient.takes msg502.length)
  have hstat : (w.sock .client).stat ≠ .closed := hclient.live
  refine ⟨w', ?_, h⟩
  simp only [netBadGateway, Io.stat, Io.mark, Prog.bind_eq, Prog.op_bind, evals_stat]
  exact .call rfl (hwrite.bind (.ret () w'))

/-- The server connection is closed and the client gets 502. -/
theorem rspFailed_alike (ret : Int) : Simulates Wire.step (Alike .server) (do
    Io.close .server
    netBadGateway .client
    return ret) fun _ => Handled := by
  apply Simulates.of_evals
  intro w₁ w₂ h
  have hfailed {w : Wire} (hok : w.Ok) (hclient : w.Willing .client) :
      ∃ w', Evals (do
        Io.close .server
        netBadGateway .client
        return ret) w ret w' ∧
        Relay .server (w.set .server (w.sock .server).close) w' [] msg502 := by
    have hok' : (w.set .server (w.sock .server).close).Ok := by
      refine hok.set ?_
      rw [Sock.Ok, Sock.close_io]
      exact hok .server
    have hclient' : (w.set .server (w.sock .server).close).Willing .client :=
      (w.room_set_other (r := .server) _).trans hclient
    obtain ⟨w', he, hr⟩ := netBadGateway_willing hok' hclient'
    exact ⟨w', .call rfl (he.bind (.ret ret w')), hr⟩
  obtain ⟨w₁', he₁, h₁⟩ := hfailed h.read.ok₁ h.written.willing₁
  obtain ⟨w₂', he₂, h₂⟩ := hfailed h.read.ok₂ h.written.willing₂
  refine ⟨ret, w₁', w₂', he₁, he₂, ?_⟩
  have hclosed₁ : (w₁'.sock .server).stat = .closed := by simp [h₁.statSrc]
  have hclosed₂ : (w₂'.sock .server).stat = .closed := by simp [h₂.statSrc]
  constructor
  · intro r
    cases r with
    | server => rw [hclosed₁, hclosed₂]
    | client =>
        have hstat₁ : (w₁'.sock .client).stat = (w₁.sock .client).stat := h₁.stat
        have hstat₂ : (w₂'.sock .client).stat = (w₂.sock .client).stat := h₂.stat
        rw [hstat₁, hstat₂]
        exact h.written.stat
  · have hsent₁ : (w₁'.sock .client).sent = (w₁.sock .client).sent ++ msg502 := h₁.sent
    have hsent₂ : (w₂'.sock .client).sent = (w₂.sock .client).sent ++ msg502 := h₂.sent
    have hsent : (w₂.sock .client).sent = (w₁.sock .client).sent := h.written.sent
    rw [hsent₁, hsent₂, hsent]
  · intro hlive
    exact absurd hclosed₁ hlive

theorem logRsp_handled (rsp : NetRsp) (ret : Int) :
    Simulates Wire.step Handled (logRsp rsp ret) fun _ => Handled := by
  apply Simulates.of_evals
  intro w₁ w₂ h
  exact ⟨_, w₁, w₂, (logRsp_evals rsp ret).mpr ⟨rfl, rfl⟩, (logRsp_evals rsp ret).mpr ⟨rfl, rfl⟩, h⟩

theorem netRelayRsp_alike (rsp : NetRsp) :
    Simulates Wire.step (Alike .server) (netRelayRsp rsp) fun _ => Handled := by
  have hbody : Simulates Wire.step (Alike .server) (relayBody rsp) fun _ => Handled := by
    refine Simulates.bind ?_ fun ret => logRsp_handled rsp ret
    split
    · exact (netTransferBody_alike rsp.data).mono fun _ _ _ h => h.handled
    · exact netRelayHttp10_alike
  refine Simulates.of_iff (Simulates.bind (connWrite_alike (rspHead rsp)) fun _ => hbody) ?_
  intro w₁ w₂ h
  exact ⟨w₁, w₂, h, fun a w' => netRelayRsp_evals rsp, fun a w' => netRelayRsp_evals rsp⟩

theorem netHttpRspHandler_alike (heap : Nat → Bytes) :
    Simulates Wire.step (Alike .server) (netHttpRspHandler heap) fun _ => Handled := by
  apply Simulates.of_iff
  case hgo =>
    intro w₁ w₂ h
    obtain ⟨t₁, hok₁, h₁, hgo₁⟩ := netHttpRspHandler_fetch h.read.ok₁
    obtain ⟨t₂, hok₂, h₂, hgo₂⟩ := netHttpRspHandler_fetch h.read.ok₂
    have hunread : t₂.unread .server = t₁.unread .server := by
      have hu₁ : w₁.unread .server = t₁.unread .server := h₁.unread
      have hu₂ : w₂.unread .server = t₂.unread .server := h₂.unread
      rw [← hu₁, ← hu₂, h.read.unread]
    have hstat : (t₂.sock .server).stat = (t₁.sock .server).stat := by
      rw [h₁.statSrc, h₂.statSrc, h.read.stat]
    have hread : ReadAlike .server t₁ t₂ :=
      h.read.moved h₁.toMoved h₂.toMoved hok₁ hok₂ hunread hstat (.inl h₁.statSrc)
    have halike : Alike .server t₁ t₂ := ⟨hread, h.written.moved h₁.toMoved h₂.toMoved⟩
    exact ⟨t₁, t₂, halike, hgo₁, hgo₂⟩
  case h =>
    refine Simulates.bind (netFetchHttp_simulates connGets_alike _) fun x => ?_
    obtain ⟨ret, data⟩ := x
    dsimp only
    split
    · exact rspFailed_alike ret
    · split
      · exact rspFailed_alike _
      · exact netRelayRsp_alike _

-- ============================================================================
-- All calls on one connection
-- ============================================================================

/-- The calls of `net_http_rsp_handler` on one server connection, as long as it is open: the
    memory each finds for its header entries, and what it returns. -/
inductive Serves : Wire → List ((Nat → Bytes) × Int) → Wire → Prop where
  | nil (w : Wire) : Serves w [] w
  | cons {heap : Nat → Bytes} {w w₁ w' : Wire} {ret : Int} {calls : List ((Nat → Bytes) × Int)} :
      w.Live .server → Evals (netHttpRspHandler heap) w ret w₁ → Serves w₁ calls w' →
      Serves w ((heap, ret) :: calls) w'

/-- A round that ends before a handler is called: `net_fetch_http` fails, `net_get_handler`
    knows no handler, or `net_parse_req` fails. -/
structure ReqRefused (heap : Nat → Bytes) (w w' : Wire) : Prop where
  live : w.Live .client
  running : w.mainStat = .running
  run : ∃ ret data, Evals (netFetchHttp .client (netDataInit heap)) w (ret, data) w' ∧
    (ret ≠ 0 ∨ netGetHandler (data.buf.str 0) = none ∨ (netParseReq (netReqInit data)).2 ≠ 0)

theorem Serves.handled {calls : List ((Nat → Bytes) × Int)} (h : Handled w₁ w₂)
    (hs : Serves w₁ calls w₁') : ∃ w₂', Serves w₂ calls w₂' ∧ Handled w₁' w₂' := by
  induction hs generalizing w₂ with
  | nil w => exact ⟨w₂, .nil w₂, h⟩
  | @cons heap w w₁ w' ret calls hlive hcall _ ih =>
      obtain ⟨v₁, hcall₂, h₁⟩ := netHttpRspHandler_alike heap _ _ (h.alike hlive) ret w₁ hcall
      obtain ⟨v', hserves, h'⟩ := ih h₁
      have hlive₂ : w₂.Live .server := by
        rw [Wire.Live, h.stat]
        exact hlive
      exact ⟨v', .cons hlive₂ hcall₂ hserves, h'⟩

/-- Giving both a server connection that takes everything. -/
theorem ReadAlike.withServer {server : Sock} (h : ReadAlike .client w₁ w₂)
    (hrun : w₁.mainStat = .running) (hserver : server.Ready) :
    Alike .client (w₁.set .server server) (w₂.set .server server) where
  read := {
    ok₁ := h.ok₁.set hserver.ok
    ok₂ := h.ok₂.set hserver.ok
    mainStat := h.mainStat
    stat := by simpa [Wire.set] using h.stat
    unread := by
      have hkeep (w : Wire) : (w.set .server server).unread .client = w.unread .client :=
        w.unread_set_other (r := .client) server
      rw [hkeep, hkeep, h.unread]
    ready := by
      have hkeep : (w₁.set .server server).unread .client = w₁.unread .client :=
        w₁.unread_set_other (r := .client) server
      rw [hkeep]
      simpa [Wire.set, Wire.Live] using h.ready }
  written := {
    stat := rfl
    sent := rfl
    willing₁ := hserver.willing hrun
    willing₂ := hserver.willing (h.mainStat.trans hrun) }

theorem Wire.step_mainStat {o : IoOp} {x : o.Res} (h : Wire.step o w = some (x, w')) :
    w'.mainStat = w.mainStat := by
  cases o with
  | setBuf r io =>
      simp only [Wire.step] at h
      split at h
      · simp only [Option.some.injEq, Prod.mk.injEq] at h
        rw [← h.2, Wire.set_mainStat]
      · exact absurd h (by simp)
  | sys _ _ | close _ =>
      simp only [Wire.step, Option.some.injEq, Prod.mk.injEq] at h
      rw [← h.2, Wire.set_mainStat]
  | mainStat | stat _ | getBuf _ | yield _ _ | mark _ | log _ =>
      simp only [Wire.step, Option.some.injEq, Prod.mk.injEq] at h
      rw [← h.2]
  | ub => exact Empty.elim x

theorem evals_mainStat_eq {α : Type} {p : Io α} {a : α} (h : Evals p w a w') :
    w'.mainStat = w.mainStat := by
  induction h with
  | ret a w => rfl
  | call hm _ ih => exact ih.trans (Wire.step_mainStat hm)
  | iter _ ih => exact ih

theorem netHttpReqHandler_alike (req : NetReq) :
    Simulates Wire.step (Alike .client) (netHttpReqHandler req) fun _ => Alike .client := by
  refine Simulates.bind (connWrite_alike _) fun ret => ?_
  split
  · exact .ret fun _ _ h => h
  · exact netTransferBody_alike _

theorem ReqRound.alike {heap : Nat → Bytes} {server : Sock} {req : NetReq} {ret : Int}
    (h : ReadAlike .client w₁ w₂) (hserver : server.Ready)
    (hround : ReqRound heap server w₁ req ret put w₁') :
    ∃ w₂', ReqRound heap server w₂ req ret put w₂' ∧ ReadAlike .client w₁' w₂' := by
  obtain ⟨hlive, hrun, ⟨data, u₁, hfetch, hget, hparse, hcall⟩, hput⟩ := hround
  obtain ⟨u₂, hfetch₂, hu⟩ :=
    netFetchHttp_simulates connGets_readAlike (netDataInit heap) w₁ w₂ h _ u₁ hfetch
  have hrun₁ : u₁.mainStat = .running :=
    (evals_mainStat_eq hfetch).trans hrun
  obtain ⟨w₂', hcall₂, h'⟩ :=
    netHttpReqHandler_alike req _ _ (hu.withServer hrun₁ hserver) ret w₁' hcall
  have hlive₂ : w₂.Live .client := by
    rw [Wire.Live, h.stat]
    exact hlive
  refine ⟨w₂', ⟨hlive₂, h.mainStat.trans hrun, ⟨data, u₂, hfetch₂, hget, hparse, hcall₂⟩, ?_⟩,
    h'.read⟩
  have hsent : (w₂'.sock .server).sent = (w₁'.sock .server).sent := h'.written.sent
  rw [hsent, hput]

theorem ReqRefused.alike {heap : Nat → Bytes} (h : ReadAlike .client w₁ w₂)
    (hround : ReqRefused heap w₁ w₁') :
    ∃ w₂', ReqRefused heap w₂ w₂' ∧ ReadAlike .client w₁' w₂' := by
  obtain ⟨hlive, hrun, ret, data, hfetch, hbad⟩ := hround
  obtain ⟨w₂', hfetch₂, h'⟩ :=
    netFetchHttp_simulates connGets_readAlike (netDataInit heap) w₁ w₂ h _ w₁' hfetch
  have hlive₂ : w₂.Live .client := by
    rw [Wire.Live, h.stat]
    exact hlive
  exact ⟨w₂', ⟨hlive₂, h.mainStat.trans hrun, ret, data, hfetch₂, hbad⟩, h'⟩

end

end HttpProxy
