/-
  HttpProxy.Stream.Writer

  conn_write: all bytes are taken when there is room for them; otherwise as many
  as there is room for are taken, and the connection is closed.
-/

import HttpProxy.Stream.Reader

namespace HttpProxy

open Lib

/-- From `w` to `w'` exactly `got` was read from `src` and exactly `put` was taken by
    the other connection before it was closed. -/
structure Broken (src : Role) (w w' : Wire) (got put : Bytes) : Prop where
  mainStat : w'.mainStat = w.mainStat
  unread : w.unread src = got ++ w'.unread src
  closed : (w'.sock src.other).stat = .closed
  sent : (w'.sock src.other).sent = (w.sock src.other).sent ++ put

section

variable {src : Role} {w w' w₁ w₂ : Wire} {got put got' put' : Bytes}

theorem Moved.broken (h : Moved src w w₁ got put) (h' : Broken src w₁ w₂ got' put') :
    Broken src w w₂ (got ++ got') (put ++ put') where
  mainStat := h'.mainStat.trans h.mainStat
  unread := by rw [h.unread, h'.unread, List.append_assoc]
  closed := h'.closed
  sent := by rw [h'.sent, h.sent, List.append_assoc]

theorem Broken.moved (h : Broken src w w₁ got put) (h' : Moved src w₁ w₂ got' put') :
    Broken src w w₂ (got ++ got') (put ++ put') where
  mainStat := h'.mainStat.trans h.mainStat
  unread := by rw [h.unread, h'.unread, List.append_assoc]
  closed := h'.stat.trans h.closed
  sent := by rw [h'.sent, h.sent, List.append_assoc]

/-- Nothing is taken by a connection that is closed. -/
theorem Broken.trans (h : Broken src w w₁ got put) (h' : Broken src w₁ w₂ got' put') :
    Broken src w w₂ (got ++ got') (put ++ put') where
  mainStat := h'.mainStat.trans h.mainStat
  unread := by rw [h.unread, h'.unread, List.append_assoc]
  closed := h'.closed
  sent := by rw [h'.sent, h.sent, List.append_assoc]

/-- Closing the other connection. -/
theorem Broken.of_close (src : Role) (w : Wire) :
    Broken src w (w.set src.other (w.sock src.other).close) [] [] where
  mainStat := rfl
  unread := by rw [Wire.unread_set_other]; rfl
  closed := by simp
  sent := by
    rw [Wire.set_sock_self, Sock.close]
    split <;> simp

end

-- ============================================================================
-- conn_try_io on a send
-- ============================================================================

section

variable {w : Wire} {src r : Role} {data : Bytes}

/-- A send hands over some of the bytes, after any number of EAGAIN, and fails only
    where no room is left. -/
theorem connTryIo_send_open {out : List Grant} (hdata : data ≠ [])
    (hrun : w.mainStat = .running) (hopen : (w.sock r).isOpen = true)
    (hout : (w.sock r).out = out) :
    ∃ o out', Evals (connTryIo r (.send data) true) w o
        (w.set r { w.sock r with out := out', sent := (w.sock r).sent ++ o.getD [] }) ∧
      (∀ bs ∈ o, bs ≠ [] ∧ bs <+: data ∧ ∀ k ∈ capacity out, bs.length ≤ k) ∧
      capacity out' = (capacity out).map (· - (o.getD []).length) ∧
      (o = none → capacity out = some 0) := by
  induction out generalizing w with
  | nil =>
      refine ⟨some data, [], connTryIo_round hrun ?_, ?_, rfl, by simp⟩
      · simp [Sock.sys, Sock.send, hopen, hout, hdata]
      · rintro _ ⟨⟩
        exact ⟨hdata, List.prefix_refl data, by simp [capacity]⟩
  | cons g out ih =>
      cases g with
      | block =>
          obtain ⟨o, out', he, ho⟩ := ih (w := w.set r { w.sock r with out }) hrun
            (by simpa using hopen) (by simp)
          refine ⟨o, out', connTryIo_round hrun ?_, ho⟩
          simpa [Sock.sys, Sock.send, hopen, hout, hdata] using he
      | accept n =>
          have hlen : (data.take (n + 1)).length = min (n + 1) data.length := List.length_take
          refine ⟨some (data.take (n + 1)), pushAccept (n + 1 - data.length) out,
            connTryIo_round hrun ?_, ?_, ?_, by simp⟩
          · simp [Sock.sys, Sock.send, hopen, hout, hdata]
          · rintro _ ⟨⟩
            refine ⟨by simp [hdata], List.take_prefix _ _, ?_⟩
            intro k hk
            simp only [capacity, Option.mem_def, Option.map_eq_some_iff] at hk
            obtain ⟨m, _, rfl⟩ := hk
            omega
          · rw [capacity_pushAccept, capacity, Option.map_map, Option.getD_some, hlen]
            congr 1
            funext k
            simp only [Function.comp]
            omega
      | fail =>
          refine ⟨none, .fail :: out, ?_, by simp, by simp [capacity], fun _ => rfl⟩
          have hself : { w.sock r with
              out := .fail :: out, sent := (w.sock r).sent ++ (none : Option Bytes).getD [] } =
              w.sock r := by
            simp [← hout]
          rw [hself, w.set_self]
          exact connTryIo_round hrun (by simp [Sock.sys, Sock.send, hopen, hout, hdata])

/-- The send every write makes. -/
theorem connTryIo_send (hdata : data ≠ []) (hlive : w.Live r) :
    ∃ o out', Evals (connTryIo r (.send data) ((w.sock r).stat != .closed)) w o
        (w.set r { w.sock r with out := out', sent := (w.sock r).sent ++ o.getD [] }) ∧
      (∀ bs ∈ o, bs ≠ [] ∧ bs <+: data ∧ w.Takes r bs.length ∧
        w.mainStat = .running ∧ (w.sock r).isOpen = true ∧
        capacity out' = (capacity (w.sock r).out).map (· - bs.length)) ∧
      (o = none → w.room r = some 0) := by
  have hstat : (w.sock r).stat ≠ .closed := hlive
  have hcb : ((w.sock r).stat != .closed) = true := by simpa using hstat
  have hself : { w.sock r with
      out := (w.sock r).out, sent := (w.sock r).sent ++ (none : Option Bytes).getD [] } =
      w.sock r := by
    simp
  rw [hcb]
  cases hrun : w.mainStat with
  | exiting =>
      refine ⟨none, (w.sock r).out, ?_, by simp, fun _ => by simp [Wire.room, hrun]⟩
      rw [hself, w.set_self]
      exact Eval.loop_inr (by simp [Io.mainStat, hrun])
  | running =>
      cases hopen : (w.sock r).isOpen with
      | false =>
          refine ⟨none, (w.sock r).out, ?_, by simp, fun _ => by simp [Wire.room, hopen]⟩
          rw [hself, w.set_self]
          exact connTryIo_round hrun (by simp [Sock.sys, Sock.send, hopen])
      | true =>
          have hroom : w.room r = capacity (w.sock r).out := by
            simp [Wire.room, hrun, hopen, hstat]
          obtain ⟨o, out', he, hsome, hcap, hnone⟩ := connTryIo_send_open hdata hrun hopen rfl
          refine ⟨o, out', he, fun bs hbs => ?_, fun ho => hroom.trans (hnone ho)⟩
          obtain ⟨hne, hpre, htakes⟩ := hsome bs hbs
          cases hbs
          exact ⟨hne, hpre, by rwa [Wire.Takes, hroom], rfl, rfl, hcap⟩

-- ============================================================================
-- conn_write
-- ============================================================================

/-- The loop of `conn_write`. -/
theorem connWriteLoop_eval (data : Bytes) (hok : w.Ok) (hlive : w.Live src.other) :
    (∃ w', Evals (connWriteLoop src.other data) w 0 w' ∧ Relay src w w' [] data ∧
        w'.sock src = w.sock src ∧ w.Takes src.other data.length) ∨
      ∃ k w', Evals (connWriteLoop src.other data) w (-1) w' ∧
        Broken src w w' [] (data.take k) ∧ w'.sock src = w.sock src ∧
        w.room src.other = some k ∧ k < data.length := by
  induction hn : data.length using Nat.strongRecOn generalizing w data with
  | _ n ih =>
    subst hn
    by_cases hdata : data = []
    · subst hdata
      exact .inl ⟨w, Eval.loop_inr (by simp), .refl src w, rfl, Wire.takes_zero⟩
    obtain ⟨o, out', he, hsome, hnone⟩ := connTryIo_send hdata hlive
    cases o with
    | none =>
        generalize hw₁ : w.set src.other { w.sock src.other with
          out := out', sent := (w.sock src.other).sent ++ (none : Option Bytes).getD [] } = w₁ at he
        refine .inr ⟨0, w₁.set src.other (w₁.sock src.other).close, Eval.loop_inr ?_, ?_,
          by simp [← hw₁], hnone rfl, List.length_pos_iff.mpr hdata⟩
        · simp only [List.isEmpty_iff, hdata, if_false, connOpen, Io.stat, Prog.bind_eq,
            Prog.op_bind, evals_stat, Prog.pure_eq, Prog.call_bind, Prog.ret_bind]
          exact he.bind (by simp [Io.close])
        · have hmoved : w.unread src = w₁.unread src := by rw [← hw₁, Wire.unread_set_other]
          have hclose := Broken.of_close src w₁
          exact {
            mainStat := by simp [← hw₁]
            unread := hmoved.trans hclose.unread
            closed := hclose.closed
            sent := by rw [hclose.sent, ← hw₁]; simp }
    | some bs =>
        obtain ⟨hne, hpre, htakes, hrun, hopen, hcap⟩ := hsome bs rfl
        have hstep : Relay src w (w.set src.other { w.sock src.other with
            io.tx := toInt32 ((w.sock src.other).io.tx + bs.length)
            out := out'
            sent := (w.sock src.other).sent ++ bs }) [] bs :=
          .of_write rfl hlive hopen hrun hcap
        generalize hw₁ : w.set src.other { w.sock src.other with
          io.tx := toInt32 ((w.sock src.other).io.tx + bs.length)
          out := out'
          sent := (w.sock src.other).sent ++ bs } = w₁ at hstep
        have hround (b : Int) (w' : Wire)
            (h : Evals (connWriteLoop src.other (data.drop bs.length)) w₁ b w') :
            Evals (connWriteLoop src.other data) w b w' := by
          refine Eval.loop_inl ?_ h
          simp only [List.isEmpty_iff, hdata, if_false, connOpen, Io.stat, Prog.bind_eq,
            Prog.op_bind, evals_stat, Prog.pure_eq, Prog.call_bind, Prog.ret_bind]
          have hio : _ ∧ _ := hok src.other
          exact he.bind (by simpa [Io.getBuf, Io.setBuf, ← hw₁] using hio)
        obtain ⟨rest, rfl⟩ := hpre
        rw [List.drop_left] at hround
        have hok₁ : w₁.Ok := hw₁ ▸ hok.set (hok src.other)
        have hlive₁ : w₁.Live src.other := hstep.live_other hlive
        have hlt : rest.length < (bs ++ rest).length := by
          have hpos := List.length_pos_iff.mpr hne
          simp only [List.length_append]
          omega
        have hsrc₁ : w₁.sock src = w.sock src := by simp [← hw₁]
        rcases ih rest.length hlt rest hok₁ hlive₁ rfl with
          ⟨w', he', h', hsrc, ht'⟩ | ⟨k, w', he', h', hsrc, hk, hlt'⟩
        · refine .inl ⟨w', hround _ _ he', hstep.trans h', hsrc.trans hsrc₁, fun k hk => ?_⟩
          have h₁ := htakes k hk
          have h₂ := hstep.takes.mp ht' k hk
          simp only [List.length_append]
          omega
        · have hroom := hstep.room
          rw [hk, eq_comm, Option.map_eq_some_iff] at hroom
          obtain ⟨m, hm, hmk⟩ := hroom
          have hle := htakes m hm
          refine .inr ⟨m, w', hround _ _ he', ?_, hsrc.trans hsrc₁, hm,
            by simp only [List.length_append]; omega⟩
          have hbroken := hstep.toMoved.broken h'
          rwa [← List.take_length_add_append, show bs.length + k = m by omega] at hbroken

theorem connWrite_live {a : Int} {w' : Wire} (hlive : w.Live r) :
    Evals (connWrite r data) w a w' ↔ Evals (connWriteLoop r data) w a w' := by
  have hstat : (w.sock r).stat ≠ .closed := hlive
  simp only [connWrite, Io.stat, Prog.bind_eq, Prog.op_bind, evals_stat]

theorem connWrite_closed (hclosed : (w.sock r).stat = .closed) :
    Evals (connWrite r data) w (-1) w := by
  simp [connWrite, Io.stat, Io.close, hclosed, Sock.close]

/-- `conn_write` where there is room for all bytes. -/
theorem connWrite_takes (hok : w.Ok) (hlive : w.Live src.other)
    (htakes : w.Takes src.other data.length) :
    ∃ w', Evals (connWrite src.other data) w 0 w' ∧ Relay src w w' [] data ∧
      w'.sock src = w.sock src := by
  rcases connWriteLoop_eval data hok hlive with ⟨w', he, h, hsrc, _⟩ | ⟨k, _, _, _, _, hk, hlt⟩
  · exact ⟨w', (connWrite_live hlive).mpr he, h, hsrc⟩
  · have hle := htakes k hk
    omega

/-- `conn_write` where there is room for `k` bytes only. -/
theorem connWrite_breaks {k : Nat} (hok : w.Ok) (hroom : w.room src.other = some k)
    (hk : k < data.length) :
    ∃ w', Evals (connWrite src.other data) w (-1) w' ∧ Broken src w w' [] (data.take k) ∧
      w'.sock src = w.sock src := by
  by_cases hlive : w.Live src.other
  · rcases connWriteLoop_eval data hok hlive with ⟨w', _, _, _, ht⟩ | ⟨m, w', he, h, hsrc, hm, _⟩
    · have hle := ht k hroom
      omega
    · rw [hroom, Option.some.injEq] at hm
      exact ⟨w', (connWrite_live hlive).mpr he, hm ▸ h, hsrc⟩
  · have hclosed : (w.sock src.other).stat = .closed := by simpa [Wire.Live] using hlive
    have hzero : 0 = k := by simpa [Wire.room, hclosed] using hroom
    refine ⟨w, connWrite_closed hclosed, ⟨rfl, rfl, hclosed, ?_⟩, rfl⟩
    simp [← hzero]

/-- `conn_write` of nothing changes nothing. -/
theorem connWrite_nil : ∃ ret, Evals (connWrite r []) w ret w := by
  by_cases hlive : w.Live r
  · exact ⟨0, (connWrite_live hlive).mpr (Eval.loop_inr (by simp))⟩
  · exact ⟨-1, connWrite_closed (by simpa [Wire.Live] using hlive)⟩

/-- What `conn_write` does in any state. -/
theorem connWrite_eval (src : Role) (hok : w.Ok) (hdata : data ≠ []) :
    (∃ w', Evals (connWrite src.other data) w 0 w' ∧ Relay src w w' [] data ∧
        w'.sock src = w.sock src ∧ w.Takes src.other data.length) ∨
      ∃ k w', Evals (connWrite src.other data) w (-1) w' ∧
        Broken src w w' [] (data.take k) ∧ w'.sock src = w.sock src ∧
        w.room src.other = some k ∧ k < data.length := by
  by_cases htakes : w.Takes src.other data.length
  · obtain ⟨w', he, h, hsrc⟩ :=
      connWrite_takes hok (htakes.live (List.length_pos_iff.mpr hdata)) htakes
    exact .inl ⟨w', he, h, hsrc, htakes⟩
  · obtain ⟨k, hroom, hk⟩ : ∃ k, w.room src.other = some k ∧ k < data.length := by
      simpa [Wire.Takes] using htakes
    obtain ⟨w', he, h, hsrc⟩ := connWrite_breaks hok hroom hk
    exact .inr ⟨k, w', he, h, hsrc, hroom, hk⟩

theorem connWriteN_nat {n : Nat} : connWriteN r data n = connWrite r (data.take n) := by
  rw [connWriteN, if_neg (by omega), Int.toNat_natCast]

end

end HttpProxy
