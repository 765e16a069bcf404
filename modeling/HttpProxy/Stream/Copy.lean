/-
  HttpProxy.Stream.Copy

  conn_copy takes its bytes from the buffer first and then from the socket.  It
  reports a failed write of received bytes, but ignores the result of writing
  what was buffered: `connCopy_truthful_iff` says when its return value can be
  trusted.
-/

import HttpProxy.Stream.Writer

namespace HttpProxy

open Lib

/-- What is left in the read buffer. -/
def Wire.leftover (w : Wire) (r : Role) : Bytes := (w.sock r).io.buf.drop (w.sock r).io.bufS

-- ============================================================================
-- Steps of conn_copy
-- ============================================================================

section

variable {w : Wire} {src : Role} {n : Nat}

theorem Wire.unread_eq : w.unread src = w.leftover src ++ w.incoming src := rfl

/-- `conn_in->buf_s += copy_len` -/
theorem connAdvance_eval (hok : w.Ok) (hn : n ≤ (w.leftover src).length) :
    ∃ w', Evals (connAdvance src n) w () w' ∧ Relay src w w' ((w.leftover src).take n) [] ∧
      w'.leftover src = (w.leftover src).drop n := by
  rw [Wire.leftover, List.length_drop] at hn
  have hle : (w.sock src).io.bufS + n ≤ (w.sock src).io.buf.length := by
    have hs := (hok src).1
    omega
  refine ⟨w.set src { w.sock src with io := { (w.sock src).io with
    bufS := (w.sock src).io.bufS + n, rx := toInt32 ((w.sock src).io.rx + n) } }, ?_,
    .of_read ?_, ?_⟩
  · simp only [connAdvance, Io.getBuf, Io.setBuf, Prog.bind_eq, Prog.op_bind, evals_getBuf,
      Int.toNat_natCast]
    exact .call (if_pos ⟨hle, (hok src).2⟩) (.ret _ _)
  · simp only [Wire.unread, Wire.incoming, Wire.set_sock_self, Wire.set_mainStat]
    rw [← List.append_assoc, ← List.drop_drop, ← Wire.leftover, List.take_append_drop]
  · simp [Wire.leftover]

/-- The body of the loop of `conn_copy`. -/
def connCopyBody (out inp : Role) (len : Int) : Io (Int ⊕ Int) := do
  if len = 0 then return .inr 0
  else do
    let b ← Io.getBuf inp
    Io.setBuf inp { b with buf := [], bufS := 0 }
    let canBlock ← connOpen inp
    match ← connTryIo inp (.recv CONN_IOBUF_SIZE) canBlock with
    | none => do
        Io.close inp
        return .inr (-1)
    | some bs => do
        let b ← Io.getBuf inp
        Io.setBuf inp { b with buf := bs, bufS := 0 }
        let copyLen : Int := if len > bs.length then bs.length else len
        let ret ← connWriteN out bs copyLen
        if ret = -1 then return .inr (-1)
        else do
          connAdvance inp copyLen
          return .inl (len - copyLen)

/-- The first half of a round: the empty buffer is filled, or the stream has ended. -/
theorem connCopyBody_fill (out : Role) {len : Int} (hlen : len ≠ 0)
    (hok : w.Ok) (hbuf : w.leftover src = []) :
    (∃ bs w₁, bs ≠ [] ∧ w₁.Ok ∧ Relay src w w₁ [] [] ∧ w₁.leftover src = bs ∧ ∀ y w',
        Evals (do
          let copyLen : Int := if len > bs.length then bs.length else len
          let ret ← connWriteN out bs copyLen
          if ret = -1 then return .inr (-1)
          else do
            connAdvance src copyLen
            return .inl (len - copyLen)) w₁ y w' ↔ Evals (connCopyBody out src len) w y w') ∨
      ∃ w', Evals (connCopyBody out src len) w (.inr (-1)) w' ∧ Moved src w w' [] [] ∧
        ¬ w'.Live src ∧ (w.Live src → w.unread src = []) := by
  have hempty := Relay.of_emptied hbuf
  generalize hw₁ : w.set src { w.sock src with
    io := { (w.sock src).io with buf := [], bufS := 0 } } = w₁ at hempty
  have hbuf₁ : (w₁.sock src).io.buf = [] := by simp [← hw₁]
  have hok₁ : w₁.Ok := hw₁ ▸ hok.set ⟨Nat.le_refl 0, Nat.zero_le _⟩
  obtain ⟨o, inp', he, hin, hsome, hnone⟩ := connTryIo_recv w₁ src
    (by decide : 0 < CONN_IOBUF_SIZE)
  have hstat : (w₁.sock src).stat = (w.sock src).stat := hempty.statSrc
  rw [hstat] at he
  cases o with
  | none =>
      have hnil (hlive : w.Live src) : w₁.incoming src = [] :=
        hnone rfl (by rw [Wire.Live, hstat]; exact hlive)
      have hrecv : Relay src w₁ (w₁.set src { w₁.sock src with inp := inp' }) [] [] :=
        .of_read (by simpa [Wire.unread] using hin)
      generalize w₁.set src { w₁.sock src with inp := inp' } = w₂ at he hrecv
      have hclose := Moved.of_close src w₂ fun hlive => by
        have hlive₁ : w₁.Live src := by rw [Wire.Live, ← hrecv.statSrc]; exact hlive
        have hrest := hnone rfl hlive₁
        have hleft : w₂.unread src = w₁.unread src := hrecv.unread.symm
        rw [hleft, Wire.unread, hbuf₁, hrest]
        simp
      refine .inr ⟨w₂.set src (w₂.sock src).close, ?_, (hempty.trans hrecv).toMoved.trans hclose,
        by simp [Wire.Live], fun hlive => ?_⟩
      · simp only [connCopyBody, hlen, if_false, Io.getBuf, Io.setBuf, connOpen, Io.stat,
          Prog.bind_eq, Prog.op_bind, Prog.pure_eq, Prog.call_bind, Prog.ret_bind, evals_getBuf,
          evals_setBuf, evals_stat, hw₁, hstat]
        refine ⟨⟨Nat.le_refl 0, Nat.zero_le _⟩, he.bind ?_⟩
        simp [Io.close]
      · rw [hempty.unread, Wire.unread, hbuf₁, hnil hlive]
        simp
  | some bs =>
      obtain ⟨hne, hle⟩ := hsome bs rfl
      refine .inl ⟨bs, w₁.set src { w₁.sock src with
          io := { (w₁.sock src).io with buf := bs, bufS := 0 }
          inp := inp' }, hne, hok₁.set ⟨Nat.zero_le _, hle⟩, hempty.trans (.of_read ?_),
        by simp [Wire.leftover], ?_⟩
      · simpa [Wire.unread, Wire.incoming, hbuf₁] using hin
      · intro y w'
        refine Iff.symm ?_
        simp only [connCopyBody, hlen, if_false, Io.getBuf, Io.setBuf, connOpen, Io.stat,
          Prog.bind_eq, Prog.op_bind, Prog.pure_eq, Prog.call_bind, Prog.ret_bind, evals_getBuf,
          evals_setBuf, evals_stat, hw₁, hstat]
        rw [and_iff_right ⟨Nat.le_refl 0, Nat.zero_le _⟩]
        refine he.bind_iff.trans ?_
        simp only [evals_getBuf, evals_setBuf, Wire.set_sock_self, Wire.set_set, hstat]
        rw [and_iff_right ⟨Nat.zero_le _, hle⟩]

end

-- ============================================================================
-- Outcomes
-- ============================================================================

/-- What `conn_copy(out, in, n)` can come to when it does not hide a failed write. -/
inductive CopyOutcome (src : Role) (w : Wire) (n : Nat) : Int → Wire → Prop where
  /-- exactly the next `n` bytes were copied -/
  | done {w' : Wire} :
      Relay src w w' ((w.unread src).take n) ((w.unread src).take n) →
      n ≤ (w.unread src).length → w.Takes src.other n → CopyOutcome src w n 0 w'
  /-- the stream ended after `k` bytes, all of which were copied -/
  | ended {w' : Wire} (k : Nat) :
      Moved src w w' ((w.unread src).take k) ((w.unread src).take k) → ¬ w'.Live src →
      k < n → k ≤ (w.unread src).length → w.Takes src.other k →
      (w.Live src → (w.unread src).length = k) →
      CopyOutcome src w n (-1) w'
  /-- the other connection took `k` bytes only -/
  | broken {w' : Wire} (k : Nat) {got : Bytes} :
      Broken src w w' got ((w.unread src).take k) → w.room src.other = some k → k < n →
      CopyOutcome src w n (-1) w'

section

variable {w w₁ w' : Wire} {src : Role} {bs : Bytes} {n : Nat} {ret : Int}

/-- Copying `bs` first, then `n` more bytes. -/
theorem CopyOutcome.prepend (h : Relay src w w₁ bs bs) (htakes : w.Takes src.other bs.length)
    (h' : CopyOutcome src w₁ n ret w') : CopyOutcome src w (bs.length + n) ret w' := by
  have hu : w.unread src = bs ++ w₁.unread src := h.unread
  have htake (m : Nat) : (w.unread src).take (bs.length + m) = bs ++ (w₁.unread src).take m := by
    rw [hu, List.take_length_add_append]
  have hlen : (w.unread src).length = bs.length + (w₁.unread src).length := by
    rw [hu, List.length_append]
  have htakes' {m : Nat} (hm : w₁.Takes src.other m) : w.Takes src.other (bs.length + m) := by
    intro k hk
    have hle := htakes k hk
    have hle' := h.takes.mp hm k hk
    omega
  cases h' with
  | done hr hn ht => exact .done (by rw [htake]; exact h.trans hr) (by omega) (htakes' ht)
  | ended k hm hdead hk hle ht hlive =>
      refine .ended (bs.length + k) (by rw [htake]; exact h.toMoved.trans hm) hdead (by omega)
        (by omega) (htakes' ht) fun hl => ?_
      have hl₁ : w₁.Live src := h.live hl
      have hk' := hlive hl₁
      omega
  | broken k hb hroom hk =>
      have hmap := h.room
      rw [hroom, eq_comm, Option.map_eq_some_iff] at hmap
      obtain ⟨m, hm, hmk⟩ := hmap
      have hle := htakes m hm
      have hm' : m = bs.length + k := by omega
      have hbroken := h.toMoved.broken hb
      rw [← htake, ← hm'] at hbroken
      exact .broken m hbroken hm (by omega)

/-- A round that goes on. -/
theorem connCopyLoop_next {out inp : Role} {len len' : Int}
    (h : Evals (connCopyBody out inp len) w (.inl len') w₁)
    (h' : Evals (connCopyLoop out inp len') w₁ ret w') :
    Evals (connCopyLoop out inp len) w ret w' :=
  Eval.loop_inl h h'

theorem connCopyLoop_zero (out inp : Role) (w : Wire) : Evals (connCopyLoop out inp 0) w 0 w :=
  Eval.loop_inr (by simp)

/-- The loop of `conn_copy`, entered with an empty buffer. -/
theorem connCopyLoop_eval (n : Nat) (hok : w.Ok) (hbuf : w.leftover src = []) :
    ∃ ret w', Evals (connCopyLoop src.other src n) w ret w' ∧ CopyOutcome src w n ret w' := by
  induction n using Nat.strongRecOn generalizing w with
  | _ n ih =>
    by_cases hn : n = 0
    · subst hn
      exact ⟨0, w, connCopyLoop_zero _ _ w, .done (by simpa using .refl src w) (Nat.zero_le _)
        Wire.takes_zero⟩
    have hn' : (n : Int) ≠ 0 := by omega
    rcases connCopyBody_fill src.other hn' hok hbuf with
      ⟨bs, w₁, hne, hok₁, h₁, hleft, hgo⟩ | ⟨w', he, hmoved, hdead, hend⟩
    · have hu₁ : w.unread src = bs ++ w₁.incoming src := by
        rw [h₁.unread, Wire.unread_eq, hleft]
        rfl
      have hroom₁ : w₁.room src.other = w.room src.other := by simpa using h₁.room
      -- what is copied in this round
      generalize hc : min n bs.length = c
      have hcopy : (if (n : Int) > bs.length then (bs.length : Int) else n) = (c : Nat) := by
        split <;> omega
      have hpos : 0 < bs.length := List.length_pos_iff.mpr hne
      have htake : bs.take c ≠ [] := by
        rw [← List.length_pos_iff, List.length_take]
        omega
      have hgo' : ∀ y w', Evals (do
            let ret ← connWrite src.other (bs.take c)
            if ret = -1 then return .inr (-1)
            else do
              connAdvance src c
              return .inl ((n : Int) - c)) w₁ y w' →
          Evals (connCopyBody src.other src n) w y w' := by
        intro y w' h
        have hfill := (hgo y w').mp
        simp only [hcopy, connWriteN_nat] at hfill
        exact hfill h
      rcases connWrite_eval src hok₁ htake with
        ⟨w₂, he₂, h₂, hsrc, htakes⟩ | ⟨k, w₂, he₂, h₂, _, hroom, hk⟩
      · have hleft₂ : w₂.leftover src = bs := by rw [Wire.leftover, hsrc]; exact hleft
        obtain ⟨w₃, he₃, h₃, hleft₃⟩ := connAdvance_eval (n := c) (evals_ok he₂ hok₁)
          (by rw [hleft₂]; omega)
        have hround : Relay src w w₃ (bs.take c) (bs.take c) := by
          have hall := (h₁.trans h₂).trans h₃
          simpa [hleft₂] using hall
        have hbody : Evals (connCopyBody src.other src n) w (.inl ((n - c : Nat) : Int)) w₃ := by
          refine hgo' _ _ (he₂.bind ?_)
          rw [if_neg (by decide)]
          exact he₃.bind (by simp; omega)
        have hok₃ := evals_ok he₃ (evals_ok he₂ hok₁)
        by_cases hle : n ≤ bs.length
        · -- the round has copied all there was to copy
          obtain rfl : n = c := by omega
          rw [Nat.sub_self] at hbody
          refine ⟨0, w₃, connCopyLoop_next hbody (connCopyLoop_zero _ _ w₃), .done ?_ ?_ ?_⟩
          · rw [hu₁, List.take_append_of_le_length hle]
            exact hround
          · rw [hu₁, List.length_append]
            omega
          · rw [List.length_take, Nat.min_eq_left hle] at htakes
            rw [Wire.Takes, ← hroom₁]
            exact htakes
        · obtain rfl : c = bs.length := by omega
          rw [List.take_length] at hround htakes
          have hnil : w₃.leftover src = [] := by rw [hleft₃, hleft₂, List.drop_length]
          obtain ⟨ret, w', he', h'⟩ := ih (n - bs.length) (by omega) hok₃ hnil
          have htakes' : w.Takes src.other bs.length := by
            rw [Wire.Takes, ← hroom₁]
            exact htakes
          have hall := CopyOutcome.prepend hround htakes' h'
          rw [Nat.add_sub_cancel' (by omega)] at hall
          exact ⟨ret, w', connCopyLoop_next hbody he', hall⟩
      · have hbody : Evals (connCopyBody src.other src n) w (.inr (-1)) w₂ :=
          hgo' _ _ (he₂.bind (by simp))
        rw [List.length_take] at hk
        have hbroken := h₁.toMoved.broken h₂
        have hsent : ([] : Bytes) ++ (bs.take c).take k = (w.unread src).take k := by
          rw [hu₁, List.take_append_of_le_length (by omega), List.take_take,
            Nat.min_eq_left (by omega)]
          rfl
        rw [hsent] at hbroken
        exact ⟨-1, w₂, Eval.loop_inr hbody, .broken k hbroken (hroom₁ ▸ hroom) (by omega)⟩
    · refine ⟨-1, w', Eval.loop_inr he, .ended 0 (by simpa using hmoved) hdead (by omega)
        (Nat.zero_le _) Wire.takes_zero fun hlive => by simp [hend hlive]⟩

-- ============================================================================
-- conn_copy
-- ============================================================================

/-- `conn_copy` with an empty buffer is its loop. -/
theorem connCopy_empty (hbuf : w.leftover src = []) {out : Role} {len : Int} :
    Evals (connCopy out src len) w ret w' ↔ Evals (connCopyLoop out src len) w ret w' := by
  have hnot : ¬ (w.sock src).io.bufS < (w.sock src).io.buf.length := by
    rw [Wire.leftover, List.drop_eq_nil_iff] at hbuf
    omega
  simp only [connCopy, Io.getBuf, Prog.bind_eq, Prog.op_bind, evals_getBuf, hnot, if_false]

/-- `conn_copy` with something in the buffer: a write whose result is dropped. -/
theorem connCopy_buffered {out : Role} {c : Nat} {x : Int} {w₂ : Wire}
    (hbuf : w.leftover src ≠ []) (hc : c = min n (w.leftover src).length)
    (hwrite : Evals (connWrite out ((w.leftover src).take c)) w x w₁)
    (hadvance : Evals (connAdvance src c) w₁ () w₂)
    (hloop : Evals (connCopyLoop out src (n - c : Nat)) w₂ ret w') :
    Evals (connCopy out src n) w ret w' := by
  have hlt : (w.sock src).io.bufS < (w.sock src).io.buf.length := by
    rw [Wire.leftover, ne_eq, List.drop_eq_nil_iff] at hbuf
    omega
  have hlen : (w.leftover src).length = (w.sock src).io.buf.length - (w.sock src).io.bufS :=
    List.length_drop
  have hcopy : (if ((w.sock src).io.buf.length : Int) - (w.sock src).io.bufS > n then (n : Int)
      else (w.sock src).io.buf.length - (w.sock src).io.bufS) = (c : Nat) := by
    split <;> omega
  have hrest : (n : Int) - (c : Nat) = ((n - c : Nat) : Int) := by omega
  simp only [connCopy, Io.getBuf, Prog.bind_eq, Prog.op_bind, evals_getBuf, hlt, if_true, hcopy,
    hrest]
  rw [← Wire.leftover, connWriteN_nat]
  exact hwrite.bind (hadvance.bind hloop)

theorem Broken.room {got put : Bytes} (h : Broken src w w' got put) :
    w'.room src.other = some 0 := by
  simp [Wire.room, h.closed]

/-- Behind a connection that is closed, a copy fails and nothing is taken. -/
theorem CopyOutcome.of_closed (h : CopyOutcome src w n ret w')
    (hclosed : (w.sock src.other).stat = .closed) (hn : 0 < n) :
    ret = -1 ∧ ∃ got, Broken src w w' got [] := by
  have hroom : w.room src.other = some 0 := by simp [Wire.room, hclosed]
  have hzero {m : Nat} (ht : w.Takes src.other m) : m = 0 := by
    have hle := ht 0 hroom
    omega
  cases h with
  | done hr hle ht => exact absurd (hzero ht) (by omega)
  | ended k hm hdead hk hle ht hlive =>
      obtain rfl := hzero ht
      exact ⟨rfl, [], hm.mainStat, hm.unread, hm.stat.trans hclosed, hm.sent⟩
  | broken k hb hk hlt =>
      rw [hroom, Option.some.injEq] at hk
      subst hk
      exact ⟨rfl, _, hb⟩

/-- `conn_copy`, unless it hides a failed write. -/
theorem connCopy_eval (n : Nat) (hok : w.Ok)
    (h : (w.leftover src).length < n ∨ w.Takes src.other n) :
    ∃ ret w', Evals (connCopy src.other src n) w ret w' ∧ CopyOutcome src w n ret w' := by
  by_cases hbuf : w.leftover src = []
  · obtain ⟨ret, w', he, ho⟩ := connCopyLoop_eval n hok hbuf
    exact ⟨ret, w', (connCopy_empty hbuf).mpr he, ho⟩
  generalize hc : min n (w.leftover src).length = c
  have htake : (w.unread src).take c = (w.leftover src).take c := by
    rw [Wire.unread_eq, List.take_append_of_le_length (by omega)]
  have hlen : (w.unread src).length = (w.leftover src).length + (w.incoming src).length := by
    rw [Wire.unread_eq, List.length_append]
  by_cases hn : n = 0
  · -- nothing to copy: the write has no bytes, and its result does not matter
    subst hn
    obtain rfl : 0 = c := by omega
    obtain ⟨x, he⟩ := connWrite_nil (w := w) (r := src.other)
    obtain ⟨w₂, he₂, h₂, _⟩ := connAdvance_eval (n := 0) hok (Nat.zero_le _)
    exact ⟨0, w₂, connCopy_buffered hbuf hc.symm he he₂ (connCopyLoop_zero _ _ w₂),
      .done (by simpa using h₂) (Nat.zero_le _) Wire.takes_zero⟩
  have hpos : 0 < (w.leftover src).length := List.length_pos_iff.mpr hbuf
  have hdata : (w.leftover src).take c ≠ [] := by
    rw [← List.length_pos_iff, List.length_take]
    omega
  -- whatever the write returns, the loop goes on behind it
  have hafter {x : Int} {w₁ : Wire} (he₁ : Evals (connWrite src.other ((w.leftover src).take c))
      w x w₁) (hsrc : w₁.sock src = w.sock src) :
      ∃ w₂, w₂.Ok ∧ Relay src w₁ w₂ ((w.leftover src).take c) [] ∧
        w₂.leftover src = (w.leftover src).drop c ∧
        ∀ ret w', Evals (connCopyLoop src.other src (n - c : Nat)) w₂ ret w' →
          Evals (connCopy src.other src n) w ret w' := by
    have hleft₁ : w₁.leftover src = w.leftover src := by rw [Wire.leftover, hsrc]; rfl
    obtain ⟨w₂, he₂, h₂, hleft₂⟩ := connAdvance_eval (n := c) (evals_ok he₁ hok)
      (by rw [hleft₁]; omega)
    rw [hleft₁] at h₂ hleft₂
    exact ⟨w₂, evals_ok he₂ (evals_ok he₁ hok), h₂, hleft₂,
      fun ret w' he => connCopy_buffered hbuf hc.symm he₁ he₂ he⟩
  rcases connWrite_eval src hok hdata with
    ⟨w₁, he₁, h₁, hsrc, htakes⟩ | ⟨k, w₁, he₁, h₁, hsrc, hroom, hk⟩ <;>
    obtain ⟨w₂, hok₂, h₂, hleft₂, hgo⟩ := hafter he₁ hsrc
  · have hround : Relay src w w₂ ((w.leftover src).take c) ((w.leftover src).take c) := by
      have hall := h₁.trans h₂
      simpa using hall
    rw [List.length_take, Nat.min_eq_left (by omega)] at htakes
    by_cases hle : n ≤ (w.leftover src).length
    · obtain rfl : n = c := by omega
      rw [Nat.sub_self] at hgo
      refine ⟨0, w₂, hgo _ _ (connCopyLoop_zero _ _ w₂), .done ?_ (by omega) htakes⟩
      rw [htake]
      exact hround
    · obtain rfl : c = (w.leftover src).length := by omega
      rw [List.take_length] at hround
      have hnil : w₂.leftover src = [] := by rw [hleft₂, List.drop_length]
      obtain ⟨ret, w', he', h'⟩ := connCopyLoop_eval (n - (w.leftover src).length) hok₂ hnil
      have hall := CopyOutcome.prepend hround htakes h'
      rw [Nat.add_sub_cancel' (by omega)] at hall
      exact ⟨ret, w', hgo _ _ he', hall⟩
  · -- the write fails, so not all that was asked for was buffered
    rw [List.length_take] at hk
    have hlt : (w.leftover src).length < n := by
      refine h.resolve_right fun ht => ?_
      have hle := ht k hroom
      omega
    obtain rfl : c = (w.leftover src).length := by omega
    have hnil : w₂.leftover src = [] := by rw [hleft₂, List.drop_length]
    obtain ⟨ret, w', he', h'⟩ := connCopyLoop_eval (n - (w.leftover src).length) hok₂ hnil
    have hbroken := h₁.moved h₂.toMoved
    obtain ⟨rfl, got, hend⟩ := h'.of_closed hbroken.closed (by omega)
    refine ⟨-1, w', hgo _ _ he', ?_⟩
    have hall := hbroken.trans hend
    have hsent : (((w.leftover src).take (w.leftover src).length).take k ++ []) ++ [] =
        (w.unread src).take k := by
      rw [← htake, List.take_take, Nat.min_eq_left (by omega), List.append_nil, List.append_nil]
    rw [hsent] at hall
    exact .broken k hall hroom (by omega)

/-- All bytes asked for are buffered and the other connection takes `k` of them only:
    the copy returns 0 all the same. -/
theorem connCopy_lost {k : Nat} (hok : w.Ok) (hle : n ≤ (w.leftover src).length)
    (hroom : w.room src.other = some k) (hk : k < n) :
    ∃ w', Evals (connCopy src.other src n) w 0 w' ∧
      Broken src w w' ((w.unread src).take n) ((w.unread src).take k) ∧
      (w'.sock src).stat = (w.sock src).stat := by
  have hbuf : w.leftover src ≠ [] := by
    rw [← List.length_pos_iff]
    omega
  have htake (m : Nat) (hm : m ≤ n) : (w.unread src).take m = (w.leftover src).take m := by
    rw [Wire.unread_eq, List.take_append_of_le_length (by omega)]
  obtain ⟨w₁, he₁, h₁, hsrc⟩ := connWrite_breaks hok hroom
    (show k < ((w.leftover src).take n).length by rw [List.length_take]; omega)
  have hleft₁ : w₁.leftover src = w.leftover src := by rw [Wire.leftover, hsrc]; rfl
  obtain ⟨w₂, he₂, h₂, _⟩ := connAdvance_eval (n := n) (evals_ok he₁ hok) (by rw [hleft₁]; omega)
  have hzero := connCopyLoop_zero src.other src w₂
  refine ⟨w₂, connCopy_buffered hbuf (by omega) he₁ he₂ (by rw [Nat.sub_self]; exact hzero), ?_,
    by rw [h₂.statSrc, hsrc]⟩
  have hall := h₁.moved h₂.toMoved
  rw [hleft₁, List.take_take, Nat.min_eq_left (Nat.le_of_lt hk), List.nil_append,
    List.append_nil] at hall
  rw [htake n (Nat.le_refl n), htake k (Nat.le_of_lt hk)]
  exact hall

/-- A negative length is handed on to `conn_write`, unless there is nothing to read. -/
theorem connCopy_neg (out : Role) {len : Int} (hlen : len < 0) (hok : w.Ok) :
    (∀ ret w', ¬ Evals (connCopy out src len) w ret w') ∨
      ∃ w', Evals (connCopy out src len) w (-1) w' ∧ Moved src w w' [] [] ∧ ¬ w'.Live src ∧
        (w.Live src → w.unread src = []) := by
  by_cases hbuf : w.leftover src = []
  · rcases connCopyBody_fill out (by omega : len ≠ 0) hok hbuf with
      ⟨bs, w₁, _, _, _, _, hgo⟩ | ⟨w', he, hmoved, hdead, hend⟩
    · refine .inl fun ret w' he => ?_
      have hnone : ∀ y w', ¬ Evals (connCopyBody out src len) w y w' := by
        intro y w' hy
        have hub := (hgo y w').mpr hy
        have hle : ¬ len > bs.length := by omega
        simp only [hle, if_false, connWriteN, hlen, if_true, Io.ub, Prog.bind_eq, Prog.call_bind,
          not_evals_ub] at hub
      rcases Eval.of_loop ((connCopy_empty hbuf).mp he) with hout | ⟨x, w₁, hround, _⟩
      · exact hnone _ _ hout
      · exact hnone _ _ hround
    · exact .inr ⟨w', (connCopy_empty hbuf).mpr (Eval.loop_inr he), hmoved, hdead, hend⟩
  · refine .inl fun ret w' he => ?_
    have hlt : (w.sock src).io.bufS < (w.sock src).io.buf.length := by
      rw [Wire.leftover, List.drop_eq_nil_iff] at hbuf
      omega
    have hgt : ((w.sock src).io.buf.length : Int) - (w.sock src).io.bufS > len := by omega
    simp only [connCopy, Io.getBuf, Prog.bind_eq, Prog.op_bind, evals_getBuf, hlt, if_true, hgt,
      connWriteN, hlen, Io.ub, Prog.call_bind, not_evals_ub] at he

-- ============================================================================
-- What the return value of conn_copy says
-- ============================================================================

/-- `conn_copy(out, in, n)` returns; it returns 0 only if the next `n` bytes of the
    stream were taken in order and the stream advanced by them; and it does not
    return 0 when a write failed, which leaves `out` closed. -/
def CopyTruthful (src : Role) (n : Nat) (w : Wire) : Prop :=
  ∃ ret w', Evals (connCopy src.other src n) w ret w' ∧
    (ret = 0 → ∃ bs, bs.length = n ∧ w.unread src = bs ++ w'.unread src ∧
      (w'.sock src.other).sent = (w.sock src.other).sent ++ bs) ∧
    (0 < n → (w'.sock src.other).stat = .closed → ret ≠ 0)

theorem copyTruthful_of (hok : w.Ok) (h : (w.leftover src).length < n ∨ w.Takes src.other n) :
    CopyTruthful src n w := by
  obtain ⟨ret, w', he, ho⟩ := connCopy_eval n hok h
  refine ⟨ret, w', he, ?_⟩
  cases ho with
  | done hr hle ht =>
      refine ⟨fun _ => ⟨_, List.length_take_of_le hle, hr.unread, hr.sent⟩, fun hn hstat => ?_⟩
      exact absurd (hr.stat.symm.trans hstat) (ht.live hn)
  | ended k hm _ _ _ _ _ => exact ⟨fun h0 => absurd h0 (by decide), fun _ _ => by decide⟩
  | broken k hb _ _ => exact ⟨fun h0 => absurd h0 (by decide), fun _ _ => by decide⟩

theorem not_copyTruthful {k : Nat} (hok : w.Ok) (hle : n ≤ (w.leftover src).length)
    (hroom : w.room src.other = some k) (hk : k < n) : ¬ CopyTruthful src n w := by
  obtain ⟨w', he, hb, _⟩ := connCopy_lost hok hle hroom hk
  rintro ⟨ret, w₁, he₁, _, hfail⟩
  obtain ⟨rfl, rfl⟩ := he.det he₁
  exact hfail (by omega) hb.closed rfl

/-- conn_copy reports delivery truthfully when not all bytes asked for are in the
    buffer, or when the other connection takes them all, and only then. -/
theorem connCopy_truthful_iff (src : Role) (n : Nat) (w : Wire) (hok : w.Ok) :
    CopyTruthful src n w ↔ (w.leftover src).length < n ∨ w.Takes src.other n := by
  refine ⟨fun h => ?_, copyTruthful_of hok⟩
  by_contra hnot
  rw [not_or, Nat.not_lt] at hnot
  obtain ⟨k, hroom, hk⟩ : ∃ k, w.room src.other = some k ∧ k < n := by
    simpa [Wire.Takes] using hnot.2
  exact not_copyTruthful hok hnot.1 hroom hk h

/-- Two fresh connections, with `bs` in the buffer of the client. -/
def Wire.buffered (bs : Bytes) (client server : List Arrival × List Grant) : Wire :=
  let w := Wire.fresh client server
  w.set .client { w.sock .client with io.buf := bs }

theorem Wire.buffered_ok {bs : Bytes} (client server : List Arrival × List Grant)
    (h : bs.length ≤ CONN_IOBUF_SIZE) : (Wire.buffered bs client server).Ok :=
  (Wire.fresh_ok client server).set ⟨Nat.zero_le _, h⟩

/-- Two bytes are buffered, three are asked for, and the server takes two. -/
theorem connCopy_truthful_three :
    CopyTruthful .client 3
      (.buffered [97, 98] ([.block, .data 99 [100]], []) ([], [.accept 1, .fail])) :=
  (connCopy_truthful_iff .client 3 _ (Wire.buffered_ok _ _ (by decide))).mpr (.inl (by decide))

/-- Two bytes are buffered, one is asked for, and the server takes none: 0 is
    returned. -/
theorem connCopy_untruthful :
    ¬ CopyTruthful .client 1 (.buffered [97, 98] ([], []) ([], [.fail])) :=
  not_copyTruthful (Wire.buffered_ok _ _ (by decide)) (by decide) rfl (by decide)

end

end HttpProxy
