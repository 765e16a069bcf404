/-
  HttpProxy.Queue.Forward

  The request heads a client's request coroutine writes to its servers are those
  of the requests it appends, in the same order (`requests_matched`).

  `fwdSpec` follows `conn_write` through its waits: the bytes of the head that
  have been accepted are the ghost state, and it returns 0 exactly when that is
  all of them.
-/

import HttpProxy.Queue.Fifo
import HttpProxy.Parse.Queued
import HttpProxy.Stream.Rebuild

namespace HttpProxy

open Lib

-- ============================================================================
-- Writing a head
-- ============================================================================

/-- Writing `head` to the server, of which `n` bytes have been accepted. -/
def fwdSpec (head : Bytes) : Prog.Spec IoOp IoOp.Res Nat where
  pre o n := match o with
    | .sys .server (.send data) => data = head.drop n ∧ n < head.length
    | .sys _ _ => False
    | .yield _ _ => n < head.length
    | _ => True
  post o r n n' := match o, r with
    | .sys _ _, .ok bs => n' = n + bs.length ∧ n' ≤ head.length
    | _, _ => n' = n

/-- What `conn_write` returns says whether all of the head was accepted. -/
def Wrote (head : Bytes) (ret : Int) (n : Nat) : Prop := ret = 0 ↔ n = head.length

section

variable {head : Bytes} {n : Nat}

theorem connTryIo_fwd (hn : n < head.length) (canBlock : Bool) :
    (connTryIo .server (.send (head.drop n)) canBlock).Wlp (fwdSpec head)
      (fun res n' => match res with
        | none => n' = n
        | some bs => n' = n + bs.length ∧ n' ≤ head.length) n := by
  refine Prog.Wlp.loop (fun _ n' => n' = n) rfl ?_
  rintro ⟨⟩ n' rfl
  refine ⟨trivial, ?_⟩
  rintro st n₁ rfl
  cases st with
  | exiting => rfl
  | running =>
      refine ⟨⟨rfl, hn⟩, ?_⟩
      intro res n₂ hpost
      cases res with
      | ok bs => exact hpost
      | zero => exact hpost
      | err => exact hpost
      | again =>
          obtain rfl : n₂ = n₁ := hpost
          cases canBlock with
          | false => rfl
          | true => exact ⟨hn, fun ret n₃ hn₃ => hn₃⟩

theorem connOpen_fwd (head : Bytes) (n : Nat) :
    (connOpen .server).Wlp (fwdSpec head) (fun _ n' => n' = n) n :=
  ⟨trivial, fun _ _ hn => hn⟩

theorem connWrite_fwd (hhead : head ≠ []) :
    (connWrite .server head).Wlp (fwdSpec head) (Wrote head) 0 := by
  have hfail {n : Nat} (hn : n < head.length) : Wrote head (-1) n := by
    constructor
    · intro hret
      exact absurd hret (by simp)
    · intro heq
      exact absurd heq (Nat.ne_of_lt hn)
  have hloop : (connWriteLoop .server head).Wlp (fwdSpec head) (Wrote head) 0 := by
    refine Prog.Wlp.loop (fun data n => data = head.drop n ∧ n ≤ head.length)
      ⟨rfl, Nat.zero_le _⟩ ?_
    rintro _ n ⟨rfl, hle⟩
    split
    · rename_i hempty
      have hge : head.length ≤ n := List.drop_eq_nil_iff.mp (List.isEmpty_iff.mp hempty)
      exact ⟨fun _ => Nat.le_antisymm hle hge, fun _ => rfl⟩
    · rename_i hempty
      have hn : n < head.length := by
        by_contra hge
        rw [List.drop_eq_nil_of_le (by omega)] at hempty
        exact hempty rfl
      refine Prog.Wlp.bind ((connOpen_fwd head n).mono ?_)
      rintro canBlock n₁ rfl
      refine Prog.Wlp.bind ((connTryIo_fwd hn _).mono ?_)
      intro res n₂ hres
      cases res with
      | none =>
          obtain rfl : n₂ = n₁ := hres
          refine ⟨trivial, fun _ n₃ hn₃ => ?_⟩
          obtain rfl : n₃ = n₂ := hn₃
          exact hfail hn
      | some bs =>
          obtain ⟨rfl, hle'⟩ := hres
          refine ⟨trivial, fun b n₃ hn₃ => ⟨trivial, fun _ n₄ hn₄ => ?_⟩⟩
          obtain rfl : n₃ = n₁ + bs.length := hn₃
          obtain rfl : n₄ = n₁ + bs.length := hn₄
          exact ⟨by rw [List.drop_drop], hle'⟩
  refine ⟨trivial, ?_⟩
  rintro st n rfl
  cases st with
  | closed => exact ⟨trivial, fun _ n' hn' => hn' ▸ hfail (List.length_pos_iff.mpr hhead)⟩
  | used => exact hloop
  | free => exact hloop

end

/-- A head has a blank line, so there is something to write. -/
theorem reqHeader_ne_nil (req : NetReq) : (reqHeader req).content ≠ [] := by
  rw [(reqHeader_holds req).raw.content]
  simp [reqHead]

-- ============================================================================
-- Heads and entries
-- ============================================================================

namespace Client

variable (cl : Client)

/-- The entry is for a request that is forwarded: any but a CONNECT. -/
def isForwarded (e : Entry) : Bool := (cl.mem.reqs e.req).kind = .http

/-- The entries of all requests that have been forwarded, popped or queued. -/
def forwards : List (ConnIx × ReqIx) :=
  (cl.hist.appended.filter cl.isForwarded).map fun e => (e.server, e.req)

/-- The head that has been written in full and whose request is about to be appended. -/
def pending : List (ConnIx × ReqIx) :=
  match cl.forwarding with
  | none => []
  | some (j, s, head) => if cl.hist.fwdSent = head.length then [(s, j)] else []

end Client

/-- A coroutine that forwards a head will know whether all of it was accepted. -/
def ReqPc.Forwards (m : Mem) (n : Nat) : ReqPc → Prop
  | .io (.forward j _ head) p => p.Wlp (fwdSpec head) (Wrote head) n ∧ (m.reqs j).kind = .http
  | _ => True

structure HeadsMatch (cl : Client) : Prop where
  known : ∀ e ∈ cl.hist.appended, e.req < cl.mem.nreq
  heads : cl.hist.heads = cl.forwards ++ cl.pending
  writes : cl.req.Forwards cl.mem cl.hist.fwdSent
  waits : cl.reqWait ≠ none → cl.pending = []

section

variable {l l' : Local} {cl cl' : Client}

/-- The requests of `cl` are those of `cl'`, with the same handlers, and the same of them have been
    forwarded. -/
structure SameForwards (cl cl' : Client) : Prop where
  nreq : cl.mem.nreq ≤ cl'.mem.nreq
  kind : ∀ j < cl.mem.nreq, (cl'.mem.reqs j).kind = (cl.mem.reqs j).kind
  appended : cl'.hist.appended = cl.hist.appended
  heads : cl'.hist.heads = cl.hist.heads

theorem Local.SameHeads.kind (h : l.SameHeads l') (j : ReqIx) :
    (l'.cl.mem.reqs j).kind = (l.cl.mem.reqs j).kind :=
  congrArg Prod.fst (congrFun h.2 j)

/-- The entries that are forwarded are those that were. -/
theorem forwards_congr (hknown : ∀ e ∈ cl.hist.appended, e.req < cl.mem.nreq)
    (hkind : ∀ j < cl.mem.nreq, (cl'.mem.reqs j).kind = (cl.mem.reqs j).kind) :
    cl.hist.appended.filter cl'.isForwarded = cl.hist.appended.filter cl.isForwarded := by
  apply List.filter_congr
  intro e he
  rw [Client.isForwarded, Client.isForwarded, hkind e.req (hknown e he)]

/-- No head is being forwarded, before and after. -/
theorem HeadsMatch.move (h : HeadsMatch cl) (hpend : cl.pending = []) (hsame : SameForwards cl cl')
    (hreq : cl'.forwarding = none) : HeadsMatch cl' := by
  have hpend' : cl'.pending = [] := by
    rw [Client.pending, hreq]
  constructor
  · intro e he
    rw [hsame.appended] at he
    exact Nat.lt_of_lt_of_le (h.known e he) hsame.nreq
  · have hheads := h.heads
    rw [hpend, List.append_nil] at hheads
    rw [hpend', List.append_nil, hsame.heads, hheads, Client.forwards, Client.forwards,
      hsame.appended, forwards_congr h.known hsame.kind]
  · unfold Client.forwarding at hreq
    unfold ReqPc.Forwards
    split
    · rename_i hpc
      rw [hpc] at hreq
      exact absurd hreq (by simp)
    · trivial
  · exact fun _ => hpend'

/-- The coroutine goes on where it is, at something else than forwarding a head. -/
theorem HeadsMatch.same (h : HeadsMatch cl) (hsame : SameForwards cl cl')
    (hreq : cl'.req = cl.req) (hsent : cl'.hist.fwdSent = cl.hist.fwdSent)
    (hwait : cl'.reqWait ≠ none → cl.reqWait ≠ none)
    (hheld : ∀ j ∈ cl.req.held, j < cl.mem.nreq) : HeadsMatch cl' := by
  have hpend : cl'.pending = cl.pending := by
    unfold Client.pending Client.forwarding
    rw [hreq, hsent]
  constructor
  · intro e he
    rw [hsame.appended] at he
    exact Nat.lt_of_lt_of_le (h.known e he) hsame.nreq
  · rw [hsame.heads, hpend, h.heads, Client.forwards, Client.forwards, hsame.appended,
      forwards_congr h.known hsame.kind]
  · have hwrites := h.writes
    rw [hreq, hsent]
    generalize cl.req = pc at hwrites hheld ⊢
    unfold ReqPc.Forwards at hwrites ⊢
    split
    · obtain ⟨hwlp, hkind⟩ := hwrites
      exact ⟨hwlp, (hsame.kind _ (hheld _ rfl)).trans hkind⟩
    · trivial
  · rw [hpend]
    exact fun hne => h.waits (hwait hne)

-- ============================================================================
-- I/O
-- ============================================================================

/-- The response coroutine does not wait for the other one. -/
theorem IoCase.reqWait_rsp {srv : ConnIx} {α : Type} {p p' : Io α}
    (h : IoCase l .rsp srv p l' p') : l'.cl.reqWait = l.cl.reqWait := by
  cases h with
  | unroll body s k => rfl
  | stuck o k f => rfl
  | yield r d k hfreed => rfl
  | act hfreed hact =>
      cases hact with
      | sys r q res hok => cases q <;> cases res <;> rfl
      | close r => simp
      | _ => rfl

/-- An operation leaves the requests and the list alone; what it accepts for the server counts only
    when a head is being forwarded. -/
theorem IoCase.sameForwards {side : Side} {srv : ConnIx} {α : Type} {p p' : Io α}
    (h : IoCase l side srv p l' p') (hside : side = .rsp ∨ l.cl.forwarding = none) :
    SameForwards l.cl l'.cl ∧ l'.cl.hist.fwdSent = l.cl.hist.fwdSent := by
  have hreqs := h.sameReqs.1.1
  have hlist := h.sameList.1
  have hmain : l'.cl.hist.heads = l.cl.hist.heads ∧ l'.cl.hist.fwdSent = l.cl.hist.fwdSent := by
    cases h with
    | unroll body s k => exact ⟨rfl, rfl⟩
    | stuck o k f => exact ⟨rfl, rfl⟩
    | yield r d k hfreed => simp
    | act hfreed hact =>
        cases hact with
        | sys r q res hok =>
            cases q with
            | recv len => cases res <;> exact ⟨rfl, rfl⟩
            | send data =>
                cases res with
                | ok bs =>
                    cases side <;> cases r
                    · exact ⟨rfl, rfl⟩
                    · have hnone : l.cl.forwarding = none := hside.resolve_left (by simp)
                      show (l.cl.logForward bs).heads = _ ∧ (l.cl.logForward bs).fwdSent = _
                      rw [Client.logForward, hnone]
                      exact ⟨rfl, rfl⟩
                    · exact ⟨rfl, rfl⟩
                    · exact ⟨rfl, rfl⟩
                | _ => exact ⟨rfl, rfl⟩
        | close r => simp
        | mark a => cases side <;> exact ⟨rfl, rfl⟩
        | _ => exact ⟨rfl, rfl⟩
  exact ⟨⟨Nat.le_of_eq hreqs.1.symm, fun j _ => Local.SameHeads.kind hreqs j, hlist.appended,
    hmain.1⟩,
    hmain.2⟩

/-- The kernel accepts a part of what is sent, from its start on. -/
theorem sysOk_send {net : Net} {fd : Fd} {data bs : Bytes}
    (h : sysOk net fd (.send data) (.ok bs) = true) : bs.isPrefixOf data = true := by
  simp only [sysOk, Bool.and_eq_true] at h
  exact h.2

theorem pending_forward {j : ReqIx} {s : ConnIx} {head : Bytes} {p : Io Int}
    (hreq : cl.req = .io (.forward j s head) p) :
    cl.pending = if cl.hist.fwdSent = head.length then [(s, j)] else [] := by
  rw [Client.pending, Client.forwarding, hreq]

/-- The head of request `j` is being written to `s`. -/
theorem HeadsMatch.forward (h : HeadsMatch cl) {j : ReqIx} {s : ConnIx} {head : Bytes} {p' : Io Int}
    (hnreq : cl'.mem.nreq = cl.mem.nreq)
    (hkind : ∀ j, (cl'.mem.reqs j).kind = (cl.mem.reqs j).kind)
    (happended : cl'.hist.appended = cl.hist.appended)
    (hreq' : cl'.req = .io (.forward j s head) p') (hj : (cl.mem.reqs j).kind = .http)
    (hwlp : p'.Wlp (fwdSpec head) (Wrote head) cl'.hist.fwdSent)
    (hheads : cl'.hist.heads =
      cl.forwards ++ if cl'.hist.fwdSent = head.length then [(s, j)] else [])
    (hwait : cl'.reqWait ≠ none → cl'.hist.fwdSent ≠ head.length) : HeadsMatch cl' := by
  constructor
  · intro e he
    rw [happended] at he
    rw [hnreq]
    exact h.known e he
  · rw [hheads, pending_forward hreq', Client.forwards, Client.forwards, happended,
      forwards_congr h.known fun j _ => hkind j]
  · rw [hreq']
    exact ⟨hwlp, (hkind j).trans hj⟩
  · intro hne
    rw [pending_forward hreq', if_neg (hwait hne)]

theorem forward_io (h : HeadsMatch l.cl) (hwait : l.cl.reqWait = none) {j : ReqIx} {s : ConnIx}
    {head : Bytes} {p p' : Io Int} (hreq : l.cl.req = .io (.forward j s head) p)
    (hio : IoCase l .req s p l' p') :
    HeadsMatch (l'.setReqPc (.io (.forward j s head) p')).cl := by
  obtain ⟨hwlp, hkind⟩ : p.Wlp (fwdSpec head) (Wrote head) l.cl.hist.fwdSent ∧
      (l.cl.mem.reqs j).kind = .http := by
    have hwrites := h.writes
    rwa [hreq] at hwrites
  have hheads := h.heads
  rw [pending_forward hreq] at hheads
  have hsame := hio.sameReqs.1.1
  have happended := hio.sameList.1.appended
  -- an operation that sends nothing
  have hquiet (hfwd : l'.cl.hist.heads = l.cl.hist.heads)
      (hsent : l'.cl.hist.fwdSent = l.cl.hist.fwdSent)
      (hwlp' : p'.Wlp (fwdSpec head) (Wrote head) l.cl.hist.fwdSent)
      (hwait' : l'.cl.reqWait ≠ none → l.cl.hist.fwdSent ≠ head.length) :
      HeadsMatch (l'.setReqPc (.io (.forward j s head) p')).cl := by
    refine h.forward hsame.1 (Local.SameHeads.kind hsame) happended rfl hkind ?_ ?_ ?_
    · simpa [hsent] using hwlp'
    · simpa [hsent, hfwd] using hheads
    · simpa [hsent] using hwait'
  cases hio with
  | unroll body x k => exact hquiet rfl rfl hwlp.unroll fun hne => absurd hwait hne
  | stuck o k f => exact hquiet rfl rfl hwlp fun hne => absurd hwait hne
  | yield r d k hfreed => exact hquiet (by simp) (by simp) hwlp fun _ => Nat.ne_of_lt hwlp.1
  | @act o k r l₂ hfreed hact =>
      cases hact with
      | sys r q res hok =>
          obtain ⟨hpre, hpost⟩ := hwlp
          cases r with
          | client => exact absurd hpre (by simp [fwdSpec])
          | server =>
              cases q with
              | recv len => exact absurd hpre (by simp [fwdSpec])
              | send data =>
                  obtain ⟨rfl, hlt⟩ := hpre
                  cases res with
                  | ok bs =>
                      have hlog : l.cl.logForward bs = { l.cl.hist with
                          fwdSent := l.cl.hist.fwdSent + bs.length
                          heads := if l.cl.hist.fwdSent + bs.length = head.length then
                            l.cl.hist.heads ++ [(s, j)] else l.cl.hist.heads } := by
                        rw [Client.logForward, Client.forwarding, hreq]
                      have hle : l.cl.hist.fwdSent + bs.length ≤ head.length := by
                        have hlen := (List.isPrefixOf_iff_prefix.mp (sysOk_send hok)).length_le
                        rw [List.length_drop] at hlen
                        omega
                      rw [if_neg (Nat.ne_of_lt hlt), List.append_nil] at hheads
                      refine h.forward hsame.1 (Local.SameHeads.kind hsame) happended rfl hkind
                        ?_ ?_ ?_
                      · show (k (.ok bs)).Wlp _ _ (l.cl.logForward bs).fwdSent
                        rw [hlog]
                        exact hpost (.ok bs) _ ⟨rfl, hle⟩
                      · show (l.cl.logForward bs).heads =
                          _ ++ if (l.cl.logForward bs).fwdSent = _ then _ else _
                        rw [hlog, ← hheads]
                        dsimp only
                        split
                        · rfl
                        · rw [List.append_nil]
                      · exact fun hne => absurd hwait hne
                  | zero => exact hquiet rfl rfl (hpost .zero _ rfl) fun hne => absurd hwait hne
                  | again => exact hquiet rfl rfl (hpost .again _ rfl) fun hne => absurd hwait hne
                  | err => exact hquiet rfl rfl (hpost .err _ rfl) fun hne => absurd hwait hne
      | mainStat => exact hquiet rfl rfl (hwlp.2 _ _ rfl) fun hne => absurd hwait hne
      | stat r => exact hquiet rfl rfl (hwlp.2 _ _ rfl) fun hne => absurd hwait hne
      | getBuf r => exact hquiet rfl rfl (hwlp.2 _ _ rfl) fun hne => absurd hwait hne
      | setBuf r b => exact hquiet rfl rfl (hwlp.2 _ _ rfl) fun hne => absurd hwait hne
      | close r =>
          exact hquiet (by simp) (by simp) (hwlp.2 _ _ rfl) fun hne =>
            absurd (by simpa using hwait) hne
      | mark a => exact hquiet rfl rfl (hwlp.2 _ _ rfl) fun hne => absurd hwait hne
      | log size => exact hquiet rfl rfl (hwlp.2 _ _ rfl) fun hne => absurd hwait hne

-- ============================================================================
-- The request coroutine
-- ============================================================================

/-- Whatever else the coroutine does, no head is being forwarded before and after. -/
theorem HeadsMatch.go (h : HeadsMatch l.cl) (hsame : l.SameHeads l')
    (hhist : l'.cl.hist.appended = l.cl.hist.appended ∧ l'.cl.hist.heads = l.cl.hist.heads)
    (hpend : l.cl.pending = []) (hreq : l'.cl.forwarding = none) : HeadsMatch l'.cl :=
  h.move hpend
    ⟨Nat.le_of_eq hsame.1.symm, fun j _ => Local.SameHeads.kind hsame j, hhist.1, hhist.2⟩
    hreq

/-- A request is appended; if it is no CONNECT, its head has been written. -/
theorem HeadsMatch.append (h : HeadsMatch l.cl) {j : ReqIx} (hj : j < l.cl.mem.nreq) (s : ConnIx)
    (hpend : l.cl.pending = if (l.cl.mem.reqs j).kind = .http then [(s, j)] else [])
    (hsame : l.SameHeads l')
    (hhist : l'.cl.hist.appended = l.cl.hist.appended ++
      [{ server := s, req := j, no := l.cl.hist.seq }] ∧ l'.cl.hist.heads = l.cl.hist.heads)
    (hreq : l'.cl.forwarding = none) : HeadsMatch l'.cl := by
  have hkind := Local.SameHeads.kind hsame
  have hpend' : l'.cl.pending = [] := by
    rw [Client.pending, hreq]
  constructor
  · intro e he
    rw [hhist.1, List.mem_append, List.mem_singleton] at he
    rw [hsame.1]
    rcases he with he | rfl
    · exact h.known e he
    · exact hj
  · have hnew :
        [({ server := s, req := j, no := l.cl.hist.seq } : Entry)].filter l'.cl.isForwarded =
        if (l.cl.mem.reqs j).kind = .http then
          [{ server := s, req := j, no := l.cl.hist.seq }] else [] := by
      rw [List.filter_singleton, Client.isForwarded, hkind j]
      simp
    rw [hhist.2, h.heads, hpend, hpend', Client.forwards, Client.forwards, hhist.1,
      List.filter_append, forwards_congr h.known fun j _ => hkind j, hnew, List.append_nil,
      List.map_append]
    split <;> rfl
  · unfold Client.forwarding at hreq
    unfold ReqPc.Forwards
    split
    · rename_i hpc
      rw [hpc] at hreq
      exact absurd hreq (by simp)
    · trivial
  · exact fun _ => hpend'

/-- A server is found in a state that has the requests and the record of `l`. -/
theorem gotServer_headsMatch (h : HeadsMatch l.cl) (hpend : l.cl.pending = []) {j : ReqIx}
    (hj : j < l.cl.mem.nreq) (s : ConnIx) (hsame : l.SameHeads l')
    (hhist : l'.cl.hist = l.cl.hist) : HeadsMatch (l'.gotServer j s).cl := by
  have hkind := Local.SameHeads.kind hsame
  have hgot := l'.gotServer_cases j s
  generalize l'.gotServer j s = l₂ at hgot ⊢
  cases hgot with
  | http hhttp =>
      have hwith := l'.withHost_heads j
      have hne : (l'.withHost j).headOf j ≠ [] := reqHeader_ne_nil _
      have hkind' (k : ReqIx) : ((l'.withHost j).cl.mem.reqs k).kind = (l.cl.mem.reqs k).kind :=
        (Local.SameHeads.kind hwith k).trans (hkind k)
      have hsent : ¬0 = ((l'.withHost j).headOf j).length := by
        intro hzero
        exact hne (List.length_eq_zero_iff.mp hzero.symm)
      refine h.forward (hwith.1.trans hsame.1) hkind' ?_ rfl ((hkind j).symm.trans hhttp) ?_ ?_ ?_
      · simp [hhist]
      · simpa using connWrite_fwd hne
      · have hheads := h.heads
        rw [hpend] at hheads
        simp only [Local.setReqPc_frame, Local.withHost_frame, hhist, if_neg hsent]
        exact hheads
      · intro _
        simpa using hsent
  | connect hconnect =>
      have hother : (l.cl.mem.reqs j).kind ≠ .http := by
        rw [← hkind j, hconnect]
        simp
      refine h.append hj s ?_ ?_ ?_ rfl
      · rw [if_neg hother, hpend]
      · have hheads : l'.SameHeads ((l'.increfConn s).increfReq j) := by simp [Local.SameHeads]
        exact ⟨hheads.1.trans hsame.1, hheads.2.trans hsame.2⟩
      · simp [hhist]

theorem gotNewConn_headsMatch (h : HeadsMatch l.cl) (hpend : l.cl.pending = []) {j : ReqIx}
    (hj : j < l.cl.mem.nreq) (i : ConnIx) (hsame : l.SameHeads l')
    (hhist : l'.cl.hist = l.cl.hist) :
    HeadsMatch (l'.gotNewConn j i).cl := by
  rw [Local.gotNewConn_eq]
  refine gotServer_headsMatch h hpend hj i ?_ (by simp [hhist])
  have hpooled := l'.pooled_heads i
  have hincref := (l'.pooled i).increfConn_heads i
  exact ⟨hincref.1.trans (hpooled.1.trans hsame.1), hincref.2.trans (hpooled.2.trans hsame.2)⟩

theorem pending_nil (h : cl.forwarding = none) : cl.pending = [] := by
  rw [Client.pending, h]

/-- A request that begins is behind the others. -/
theorem begun_headsMatch (h : HeadsMatch l.cl) {p : Io (Int × NetData)} {data : NetData}
    {kind : HandlerKind} (hreq : l.cl.req = .io .fetch p) {pc : ReqPc}
    (hpc : ((l.begun data kind).setReqPc pc).cl.forwarding = none) :
    HeadsMatch ((l.begun data kind).setReqPc pc).cl := by
  refine h.move (pending_nil (by simp [Client.forwarding, hreq])) ⟨?_, ?_, ?_, ?_⟩ hpc
  · exact Nat.le_succ _
  · exact fun j hj => congrArg Prod.fst (l.begun_head data kind hj)
  · simp
  · simp

theorem headsMatch_reqStep (h : HeadsMatch l.cl) (hkept : Kept l.cl) (hwait : l.cl.reqWait = none)
    (hs : ReqCase l l') : HeadsMatch l'.cl := by
  have hheld {pc : ReqPc} (hreq : l.cl.req = pc) {j : ReqIx} (hj : pc.held = some j) :
      j < l.cl.mem.nreq := (hkept.held j (by rw [hreq]; exact hj)).1
  cases hs with
  | @io α k p p' l₁ hreq hio =>
      cases k with
      | forward j s head => exact forward_io h hwait hreq hio
      | _ =>
          have hnone : l.cl.forwarding = none := by simp [Client.forwarding, hreq]
          obtain ⟨hsame, -⟩ := hio.sameForwards (.inr hnone)
          exact h.move (pending_nil hnone) ⟨hsame.nreq, hsame.kind, hsame.appended, hsame.heads⟩ rfl
  | @forwarded j s head hreq =>
      have hwrites := h.writes
      rw [hreq] at hwrites
      obtain ⟨hwrote, hkind⟩ := hwrites
      have hsent : l.cl.hist.fwdSent = head.length := hwrote.mp rfl
      refine h.append (hheld hreq rfl) s ?_ ?_ ⟨by simp, by simp⟩ rfl
      · rw [pending_forward hreq, if_pos hsent, if_pos hkind]
      · simp [Local.SameHeads]
  | @notForwarded j s head ret hreq hret =>
      have hwrites := h.writes
      rw [hreq] at hwrites
      have hsent : l.cl.hist.fwdSent ≠ head.length := fun heq => hret (hwrites.1.mpr heq)
      refine h.go (by simp [Local.SameHeads]) (by simp) ?_ rfl
      rw [pending_forward hreq, if_neg hsent]
  | reuse hreq hfind hstat =>
      exact gotServer_headsMatch h (pending_nil (by simp [Client.forwarding, hreq]))
        (hheld hreq rfl) _ (l.increfConn_heads _) (by simp)
  | newConn hreq hfd =>
      exact gotNewConn_headsMatch h (pending_nil (by simp [Client.forwarding, hreq]))
        (hheld hreq rfl) _ (l.newConn_heads _ _ _) rfl
  | connected hreq hret =>
      exact gotNewConn_headsMatch h (pending_nil (by simp [Client.forwarding, hreq]))
        (hheld hreq rfl) _ ⟨rfl, rfl⟩ rfl
  | cleanup hreq =>
      refine h.go ?_ ?_ (pending_nil (by simp [Client.forwarding, hreq])) ?_
      · simp [Local.SameHeads, Local.reqCleanup, Local.leave]
      · simp [Local.reqCleanup, Local.leave]
      · simp [Local.reqCleanup, Local.leave, Client.forwarding]
  | done hreq =>
      refine h.go ?_ ?_ (pending_nil (by simp [Client.forwarding, hreq])) ?_
      all_goals
        unfold Local.reqDone
        dsimp only
        split
      · exact ⟨rfl, rfl⟩
      · exact ⟨rfl, rfl⟩
      · exact ⟨rfl, rfl⟩
      · exact ⟨rfl, rfl⟩
      · rfl
      · rfl
  | @resolved j eid res hreq =>
      obtain ⟨rps, hreq'⟩ := (l.dnsResolved_frame j eid res).2.2
      exact h.go (by simp [Local.SameHeads]) (by simp)
        (pending_nil (by simp [Client.forwarding, hreq]))
        (by simp [Client.forwarding, hreq'])
  | noLookup hreq => exact h
  | refused hreq => exact begun_headsMatch h hreq rfl
  | dispatch hreq hkind hparse => exact begun_headsMatch h hreq rfl
  | connecting hreq hfd =>
      refine h.go ?_ ?_ (pending_nil (by simp [Client.forwarding, hreq])) rfl
      · exact ⟨rfl, rfl⟩
      · simp
  | _ =>
      exact h.go (by simp [Local.SameHeads]) (by simp)
        (pending_nil (by simp [Client.forwarding, *])) rfl

-- ============================================================================
-- Runs
-- ============================================================================

/-- The response coroutine writes no heads. -/
theorem RspCase.sameForwards (hs : RspCase l l') :
    SameForwards l.cl l'.cl ∧ l'.cl.hist.fwdSent = l.cl.hist.fwdSent ∧
      l'.cl.reqWait = l.cl.reqWait := by
  have hof (hsame : l.SameHeads l') (happended : l'.cl.hist.appended = l.cl.hist.appended)
      (hheads : l'.cl.hist.heads = l.cl.hist.heads) : SameForwards l.cl l'.cl :=
    ⟨Nat.le_of_eq hsame.1.symm, fun j _ => Local.SameHeads.kind hsame j, happended, hheads⟩
  cases hs with
  | io hdead hrsp hio =>
      obtain ⟨⟨hnreq, hkind, happended, hheads⟩, hsent⟩ := hio.sameForwards (.inl rfl)
      exact ⟨⟨hnreq, hkind, happended, hheads⟩, hsent, hio.reqWait_rsp⟩
  | evict hdead hrsp hcnt hstat hfind =>
      exact ⟨hof (by simp [Local.SameHeads, Local.rspPop]) (by simp [Local.rspPop])
        (by simp [Local.rspPop]), by simp [Local.rspPop], by simp [Local.rspPop, Local.evicted]⟩
  | pop hdead hrsp hcnt hstat =>
      exact ⟨hof (by simp [Local.SameHeads, Local.rspPop]) (by simp [Local.rspPop])
        (by simp [Local.rspPop]), by simp [Local.rspPop], by simp [Local.rspPop]⟩
  | exit hdead hrsp =>
      have hall : l.SameHeads l.rspExit ∧ l.rspExit.cl.hist = l.cl.hist ∧
          l.rspExit.cl.reqWait = l.cl.reqWait := by
        unfold Local.rspExit
        dsimp only
        split <;> simp [Local.SameHeads, Local.leave]
      obtain ⟨hsame, hhist, hwait⟩ := hall
      exact ⟨hof hsame (by rw [hhist]) (by rw [hhist]), by rw [hhist], hwait⟩
  | sleep hdead hrsp hhead => exact ⟨hof ⟨rfl, rfl⟩ rfl rfl, rfl, rfl⟩
  | _ => exact ⟨hof ⟨rfl, rfl⟩ rfl rfl, rfl, rfl⟩

theorem headsMatch_rspStep (h : HeadsMatch l.cl) (hkept : Kept l.cl) (hs : RspCase l l') :
    HeadsMatch l'.cl := by
  obtain ⟨hsame, hsent, hwait⟩ := hs.sameForwards
  exact h.same hsame hs.req_eq hsent (fun hne => hwait ▸ hne) fun j hj => (hkept.held j hj).1

/-- A write that goes on after a wait has the same bytes behind it. -/
theorem ioResume_fwd {head : Bytes} {n : Nat} {p : Io Int} (ret : Int)
    (h : p.Wlp (fwdSpec head) (Wrote head) n) :
    (ioResume ret p).Wlp (fwdSpec head) (Wrote head) n := by
  unfold ioResume
  split
  · exact h.2 ret n rfl
  · exact h

theorem headsMatch_resume (h : HeadsMatch cl) (hkept : Kept cl) (side : Side) (ret : Int) :
    HeadsMatch (cl.resume side ret) := by
  have hheld : ∀ j ∈ cl.req.held, j < cl.mem.nreq := fun j hj => (hkept.held j hj).1
  cases side with
  | req =>
      show HeadsMatch (cl.resumeReq ret)
      have hrest {cl' : Client} (hnone : cl.forwarding = none) (hmem : cl'.mem = cl.mem)
          (hhist : cl'.hist = cl.hist) (hreq : cl'.forwarding = none) : HeadsMatch cl' :=
        h.move (pending_nil hnone) ⟨Nat.le_of_eq (by rw [hmem]), fun _ _ => by rw [hmem],
          by rw [hhist], by rw [hhist]⟩ hreq
      unfold Client.resumeReq
      dsimp only
      split
      · rename_i hreq
        exact hrest (by simp [Client.forwarding, hreq]) rfl rfl rfl
      · rename_i α k p hreq
        cases k with
        | forward j s head =>
            obtain ⟨hwlp, hkind⟩ : p.Wlp (fwdSpec head) (Wrote head) cl.hist.fwdSent ∧
                (cl.mem.reqs j).kind = .http := by
              have hwrites := h.writes
              rwa [hreq] at hwrites
            refine h.forward rfl (fun _ => rfl) rfl rfl hkind (ioResume_fwd ret hwlp) ?_ ?_
            · have hheads := h.heads
              rwa [pending_forward hreq] at hheads
            · exact fun hne => absurd rfl hne
        | _ => exact hrest (by simp [Client.forwarding, hreq]) rfl rfl rfl
      · rename_i hreq
        exact hrest (by simp [Client.forwarding, hreq]) rfl rfl rfl
      · rename_i hreq
        exact hrest (by simp [Client.forwarding, hreq]) rfl rfl rfl
      · rename_i hreq
        exact hrest (by simp [Client.forwarding, hreq]) rfl rfl rfl
      · exact h.same ⟨Nat.le_refl _, fun _ _ => rfl, rfl, rfl⟩ rfl rfl
          (fun hne => absurd rfl hne) hheld
  | rsp =>
      show HeadsMatch (cl.resumeRsp ret)
      unfold Client.resumeRsp
      dsimp only
      split <;> exact h.same ⟨Nat.le_refl _, fun _ _ => rfl, rfl, rfl⟩ rfl rfl
        (fun hne => hne) hheld

theorem headsMatch_invariant : ClientInvariant (fun _ _ _ => true) Kept HeadsMatch where
  new := by
    intro sh conn _ _
    constructor
    · intro e he
      exact absurd he (by simp [World.newClient])
    · rfl
    · trivial
    · exact fun _ => rfl
  req := fun _ _ _ _ hwait hkept h hs => headsMatch_reqStep h hkept hwait hs
  rsp := fun _ _ _ _ _ hkept h hs => headsMatch_rspStep h hkept hs
  resume := fun _ side ret _ hkept h => headsMatch_resume h hkept side ret
  err := fun _ _ _ hkept h =>
    h.same ⟨Nat.le_refl _, fun _ _ => rfl, rfl, rfl⟩ rfl rfl (fun hne => hne)
      fun j hj => (hkept.held j hj).1

end

theorem World.headsMatch {w : World} (h : w.Reachable) {c : ClientId} {cl : Client}
    (hcl : w.clients c = some cl) : HeadsMatch cl :=
  client_invariant headsMatch_invariant (fun w ch _ => coOk_true w ch)
    (fun _ hr => kept_reachable hr)
    h hcl

-- ============================================================================
-- Heads and entries of one server
-- ============================================================================

namespace Client

variable (cl : Client)

/-- The entries that have been popped. -/
def popped : List Entry := cl.hist.appended.take cl.hist.npop

/-- The requests whose heads have been written to `s`, in the order they were. -/
def headsTo (s : ConnIx) : List ReqIx := (cl.hist.heads.filter (·.1 = s)).map (·.2)

end Client

/-- The requests of those entries that are for server `s`. -/
def requestsTo (es : List Entry) (s : ConnIx) : List ReqIx :=
  (es.filter (·.server = s)).map (·.req)

/-- A request coroutine that does not run has appended what it has forwarded. -/
theorem World.pending_of_not_running {w : World} (h : w.Reachable) {c : ClientId} {cl : Client}
    (hcl : w.clients c = some cl) (hrun : w.sh.callCxt ≠ some ⟨c, .req⟩) : cl.pending = [] := by
  cases hnone : cl.forwarding with
  | none => exact pending_nil hnone
  | some x =>
      apply (headsMatch h hcl).waits
      have hparked : cl.peer.ReqParked :=
        (parkOk h).parked ⟨c, .req⟩ cl.peer hrun (by simp [World.notify, hcl])
      have hwork : cl.peer.req = .work := by
        show cl.req.pos = .work
        unfold Client.forwarding at hnone
        split at hnone
        · rename_i hreq
          rw [hreq]
          rfl
        · exact absurd hnone (by simp)
      simp only [Notify.Peer.ReqParked, hwork] at hparked
      obtain ⟨fd, d, hwait⟩ := hparked
      have hwait' : cl.reqWait = some (.io fd d) := hwait
      simp [hwait']

/-- The list of a client holds the entries appended and not yet popped, its last node is the tail,
    and head and tail are NULL when it is empty.  Whenever the request coroutine does not run, the
    heads written in full to a server are those of its entries that are no CONNECT, in order. -/
theorem requests_matched {w : World} (h : w.Reachable) {c : ClientId} {cl : Client}
    (hcl : w.clients c = some cl) :
    cl.cxt.list.Repr cl.cxt.list.cells ∧ cl.hist.appended = cl.popped ++ cl.queued ∧
      (cl.cxt.list.head = none ↔ cl.queued = []) ∧ (cl.cxt.list.tail = none ↔ cl.queued = []) ∧
      cl.cxt.list.tail = cl.cxt.list.cells.getLast?.map Prod.fst ∧
      (w.sh.callCxt ≠ some ⟨c, .req⟩ → ∀ s,
        cl.headsTo s = requestsTo ((cl.popped ++ cl.queued).filter cl.isForwarded) s) := by
  have hfifo := World.fifo h hcl
  have happended : cl.hist.appended = cl.popped ++ cl.queued := by
    rw [hfifo.queued, Client.popped, List.take_append_drop]
  have hempty : cl.cxt.list.cells = [] ↔ cl.queued = [] := by
    rw [Client.queued, List.map_eq_nil_iff]
  refine ⟨hfifo.repr, happended, hfifo.repr.head_eq_none_iff.trans hempty,
    hfifo.repr.tail_eq_none_iff.trans hempty, hfifo.repr.tail, fun hrun s => ?_⟩
  have hheads := (World.headsMatch h hcl).heads
  rw [World.pending_of_not_running h hcl hrun, List.append_nil] at hheads
  rw [Client.headsTo, requestsTo, hheads, Client.forwards, happended, List.filter_map,
    List.map_map]
  rfl

/-- A request that is forwarded is queued, and its head has been written. -/
theorem requests_matched_one : ∃ (w : World) (cl : Client), w.Reachable ∧ w.clients 0 = some cl ∧
    cl.headsTo 1 = requestsTo ((cl.popped ++ cl.queued).filter cl.isForwarded) 1 ∧
    cl.headsTo 1 ≠ [] := by
  have hd : (World.driveInit (fun _ _ => true) 300 oneRequest).any (fun w =>
      (w.clients 0).any fun cl => w.sh.callCxt = none &&
        cl.queued.any fun e => e.server = 1 && cl.isForwarded e) = true := by
    decide +kernel
  obtain ⟨w, hw, hp⟩ := World.reachable_of_drive hd
  obtain ⟨cl, hcl, hp⟩ := (Option.any_eq_true _ _).mp hp
  rw [Bool.and_eq_true, decide_eq_true_eq, List.any_eq_true] at hp
  obtain ⟨hrun, e, he, hserver⟩ := hp
  rw [Bool.and_eq_true, decide_eq_true_eq] at hserver
  have hmatch := (requests_matched hw hcl).2.2.2.2.2 (by simp [hrun]) 1
  refine ⟨w, cl, hw, hcl, hmatch, ?_⟩
  rw [hmatch]
  apply List.ne_nil_of_mem (a := e.req)
  simp only [requestsTo, List.mem_map, List.mem_filter, decide_eq_true_eq]
  exact ⟨e, ⟨⟨List.mem_append_right _ he, hserver.2⟩, hserver.1⟩, rfl⟩

/-- The entry of a CONNECT request is in the list, and no head has been written for it. -/
theorem connect_unmatched : ∃ (w : World) (cl : Client), w.Reachable ∧ w.clients 0 = some cl ∧
    w.sh.callCxt = none ∧ cl.headsTo 1 ≠ requestsTo (cl.popped ++ cl.queued) 1 := by
  have hd :
    (World.driveInit (fun _ _ => true) 300 (connectRequest ++ [.sys .again, .sys .again])).any
      (fun w => (w.clients 0).any fun cl => w.sh.callCxt = none &&
        cl.queued.any fun e => e.server = 1 && !cl.isForwarded e) = true := by
    decide +kernel
  obtain ⟨w, hw, hp⟩ := World.reachable_of_drive hd
  obtain ⟨cl, hcl, hp⟩ := (Option.any_eq_true _ _).mp hp
  rw [Bool.and_eq_true, decide_eq_true_eq, List.any_eq_true] at hp
  obtain ⟨hrun, e, he, hserver⟩ := hp
  rw [Bool.and_eq_true, decide_eq_true_eq, Bool.not_eq_true'] at hserver
  refine ⟨w, cl, hw, hcl, hrun, fun heq => ?_⟩
  -- the heads written are those of the entries that are no CONNECT
  have hheads := (World.headsMatch hw hcl).heads
  rw [World.pending_of_not_running hw hcl (by simp [hrun]), List.append_nil] at hheads
  have hfifo := World.fifo hw hcl
  have happended : cl.hist.appended = cl.popped ++ cl.queued := by
    rw [hfifo.queued, Client.popped, List.take_append_drop]
  have hlen := congrArg List.length heq
  simp only [Client.headsTo, requestsTo, hheads, Client.forwards, happended, List.filter_map,
    List.length_map, List.filter_filter] at hlen
  have hlt : (((cl.popped ++ cl.queued).filter (·.server = 1)).filter cl.isForwarded).length <
      ((cl.popped ++ cl.queued).filter (·.server = 1)).length :=
    List.length_filter_lt_length_iff_exists.mpr ⟨e, by simp [he, hserver.1], by simp [hserver.2]⟩
  rw [List.filter_filter] at hlt
  simp only [Function.comp_def, Bool.and_comm] at hlen hlt
  omega

end HttpProxy
