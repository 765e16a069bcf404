/-
  HttpProxy.System.Registration

  Which coroutine the handler table of core/net_pull.c calls for a descriptor.

  `Sheds t t'` says that on the way from table `t` to table `t'` coroutines can
  only have lost their registrations, and that no descriptor has got a second
  entry.  Everything a coroutine does to the table sheds, except that it
  registers itself when it waits.
-/

import HttpProxy.System.Frame
import Mathlib.Data.List.Nodup

namespace HttpProxy

/-- The coroutine to call for a direction. -/
def PullEnt.co (e : PullEnt) : Dir → Option Co
  | .read => match e.rd with
      | some (.co x) => some x
      | _ => none
  | .write => match e.wr with
      | some (.co x) => some x
      | _ => none

/-- The calls of coroutines an entry asks for, in order. -/
def PullEnt.calls (e : PullEnt) : List (Fd × Dir × Co) :=
  ((e.co .read).map fun x => (e.fd, Dir.read, x)).toList ++
    ((e.co .write).map fun x => (e.fd, Dir.write, x)).toList

/-- The calls of coroutines a dispatch loop has still to make. -/
def Todo.calls : Todo → List (Fd × Dir × Co)
  | .batch _ => []
  | .done ents => ents.flatMap PullEnt.calls

/-- The calls of coroutines the main loop is bound to make for descriptors whose
    handlers it has taken out of the table. -/
def Main.calls : Main → List (Fd × Dir × Co)
  | .next t => t.calls
  | .callRead ev nh t =>
      ((nh.co .read).map fun x => (ev.fd, Dir.read, x)).toList ++
        (((nh.co .write).map fun x => (ev.fd, Dir.write, x)).toList ++ t.calls)
  | .callWrite ev nh t => ((nh.co .write).map fun x => (ev.fd, Dir.write, x)).toList ++ t.calls
  | .accept _ k => k.calls
  | .dnsRead k => k.calls
  | .eventWork => []
  | .eventRet => []
  | .epollWait => []
  | .exited => []

/-- Coroutine `x` is registered for direction `d` of `fd`. -/
def Registered (t : List PullEnt) (fd : Fd) (d : Dir) (x : Co) : Prop :=
  ∃ e ∈ t, e.fd = fd ∧ e.co d = some x

/-- No descriptor has two entries. -/
def TableOk (t : List PullEnt) : Prop := (t.map (·.fd)).Nodup

structure Sheds (t t' : List PullEnt) : Prop where
  le : ∀ fd d x, Registered t' fd d x → Registered t fd d x
  ok : TableOk t → TableOk t'

theorem Sheds.refl (t : List PullEnt) : Sheds t t := ⟨fun _ _ _ h => h, fun h => h⟩

/-- Shedding goes on from table to table. -/
theorem Sheds.trans {t₁ t₂ t₃ : List PullEnt} (h₁ : Sheds t₁ t₂) (h₂ : Sheds t₂ t₃) :
    Sheds t₁ t₃ :=
  ⟨fun fd d x h => h₁.le fd d x (h₂.le fd d x h), fun h => h₂.ok (h₁.ok h)⟩

@[simp] theorem PullEnt.set_fd (e : PullEnt) (d : Dir) (h : Option Handler) :
    (e.set d h).fd = e.fd := by
  cases d <;> rfl

/-- A direction calls the coroutine of the handler that was set for it last. -/
theorem PullEnt.co_set (e : PullEnt) (d d' : Dir) (h : Option Handler) :
    (e.set d h).co d' =
      if d' = d then (match h with
        | some (.co x) => some x
        | _ => none) else e.co d' := by
  cases d <;> cases d' <;> rfl

namespace Net

variable (net : Net)

/-- A lookup fails exactly where no entry has the descriptor. -/
theorem pullFind_eq_none_iff (fd : Fd) : net.pullFind fd = none ↔ ∀ e ∈ net.table, e.fd ≠ fd := by
  simp [pullFind, List.find?_eq_none]

/-- What a lookup finds is an entry of the table, for that descriptor. -/
theorem mem_of_pullFind {net : Net} {fd : Fd} {e : PullEnt} (h : net.pullFind fd = some e) :
    e ∈ net.table ∧ e.fd = fd :=
  ⟨List.mem_of_find?_eq_some h, by simpa using List.find?_some h⟩

/-- A new entry has no handlers yet, and there was none for its descriptor. -/
theorem sheds_netPullAdd (ok : Bool) (fd : Fd) (err : Option (ClientId × ConnIx)) :
    Sheds net.table (net.netPullAdd ok fd err).table := by
  unfold netPullAdd
  split
  · dsimp only
    split
    · rename_i hnone
      rw [Option.isNone_iff_eq_none, pullFind_eq_none_iff] at hnone
      refine ⟨?_, fun hok => ?_⟩
      · rintro fd' d x ⟨e, he, hfd, hx⟩
        rcases List.mem_append.mp he with he | he
        · exact ⟨e, he, hfd, hx⟩
        · rw [List.mem_singleton] at he
          subst he
          cases d <;> simp [PullEnt.co] at hx
      · rw [TableOk, List.map_append, List.nodup_append]
        refine ⟨hok, by simp, ?_⟩
        intro a ha b hb
        obtain ⟨e, he, rfl⟩ := List.mem_map.mp ha
        rw [List.map_singleton, List.mem_singleton] at hb
        exact hb ▸ hnone e he
    · exact Sheds.refl _
  · exact Sheds.refl _

/-- Deleting only takes an entry away. -/
theorem sheds_netPullDel (fd : Fd) : Sheds net.table (net.netPullDel fd).table := by
  unfold netPullDel
  split
  · refine ⟨?_, fun hok => ?_⟩
    · rintro fd' d x ⟨e, he, h⟩
      exact ⟨e, List.mem_of_mem_filter he, h⟩
    · exact hok.sublist (List.filter_sublist.map _)
  · exact Sheds.refl _

/-- Setting a handler adds no entry. -/
theorem tableOk_netPullSetHandler (fd : Fd) (d : Dir) (h : Option Handler) :
    TableOk (net.netPullSetHandler fd d h).table ↔ TableOk net.table := by
  have : ((fun e : PullEnt => e.fd) ∘ fun e => if e.fd = fd then e.set d h else e)
      = fun e => e.fd := by
    funext e
    simp only [Function.comp]
    split <;> simp
  simp [TableOk, netPullSetHandler, this]

/-- Setting a handler registers the coroutine it calls, if any, and no other. -/
theorem registered_netPullSetHandler {fd : Fd} {d : Dir} {h : Option Handler} {fd' : Fd}
    {d' : Dir} {y : Co} (hy : Registered (net.netPullSetHandler fd d h).table fd' d' y) :
    Registered net.table fd' d' y ∧ ¬(fd' = fd ∧ d' = d) ∨
      fd' = fd ∧ d' = d ∧ h = some (.co y) := by
  obtain ⟨e, he, hfd, hco⟩ := hy
  obtain ⟨e₀, he₀, rfl⟩ := List.mem_map.mp he
  by_cases hfd₀ : e₀.fd = fd
  · rw [if_pos hfd₀, PullEnt.co_set] at hco
    rw [if_pos hfd₀, PullEnt.set_fd, hfd₀] at hfd
    by_cases hd : d' = d
    · rw [if_pos hd] at hco
      right
      refine ⟨hfd.symm, hd, ?_⟩
      split at hco
      · rw [Option.some.injEq] at hco
        rw [hco]
      · exact absurd hco (by simp)
    · rw [if_neg hd] at hco
      exact .inl ⟨⟨e₀, he₀, hfd₀.trans hfd, hco⟩, fun hc => hd hc.2⟩
  · rw [if_neg hfd₀] at hco hfd
    exact .inl ⟨⟨e₀, he₀, hfd, hco⟩, fun hc => hfd₀ (hfd.trans hc.1)⟩

/-- Setting a handler that calls no coroutine registers none. -/
theorem sheds_netPullSetHandler {fd : Fd} {d : Dir} {h : Option Handler}
    (hh : ∀ x, h ≠ some (.co x)) : Sheds net.table (net.netPullSetHandler fd d h).table := by
  refine ⟨fun fd' d' x hx => ?_, (net.tableOk_netPullSetHandler fd d h).mpr⟩
  rcases net.registered_netPullSetHandler hx with h' | h'
  · exact h'.1
  · exact absurd h'.2.2 (hh x)

end Net

-- ============================================================================
-- Operations of a coroutine
-- ============================================================================

namespace Local

variable (l : Local) (i : ConnIx)

/-- A fault leaves the descriptors alone, and so do the reference counts below. -/
@[simp] theorem raise_net (f : Fault) : (l.raise f).sh.net = l.sh.net := rfl

@[simp] theorem increfConn_net : (l.increfConn i).sh.net = l.sh.net := by
  unfold increfConn
  split <;> rfl

@[simp] theorem decrefConnNull_net : (l.decrefConnNull i).sh.net = l.sh.net := by
  unfold decrefConnNull
  split <;> rfl

@[simp] theorem increfReq_net (j : ReqIx) : (l.increfReq j).sh.net = l.sh.net := by
  unfold increfReq
  split <;> rfl

@[simp] theorem decrefReq_net (j : ReqIx) : (l.decrefReq j).sh.net = l.sh.net := by
  unfold decrefReq
  split <;> rfl

@[simp] theorem connInit_net : (l.connInit i).sh.net = l.sh.net := rfl

@[simp] theorem newReq_net (req : NetReq) (kind : HandlerKind) :
    (l.newReq req kind).sh.net = l.sh.net := rfl

/-- A connection that is made has its own entry. -/
theorem sheds_newConn (fd : Fd) (ep : Endpoint) (ok : Bool) :
    Sheds l.sh.net.table (l.newConn fd ep ok).sh.net.table :=
  (l.sh.net.sysOpen fd _).sheds_netPullAdd ok fd _

/-- Deregistering a connection adds nothing. -/
theorem sheds_connDel : Sheds l.sh.net.table (l.connDel i).sh.net.table :=
  (l.sh.net.act _ _ _ _).sheds_netPullDel _

theorem sheds_closeFd : Sheds l.sh.net.table (l.closeFd i).sh.net.table :=
  l.sheds_connDel i

/-- A connection that is closed already is left alone. -/
theorem sheds_connClose : Sheds l.sh.net.table (l.connClose i).sh.net.table := by
  unfold connClose
  split
  · exact Sheds.refl _
  · exact l.sheds_closeFd i

/-- conn_done closes the descriptor in any case. -/
theorem sheds_connDone : Sheds l.sh.net.table (l.connDone i).sh.net.table := by
  unfold connDone
  split
  · exact l.sheds_closeFd i
  · exact l.sheds_connClose i

/-- Dropping a reference deregisters the descriptor at the last one. -/
theorem sheds_decrefConn : Sheds l.sh.net.table (l.decrefConn i).sh.net.table := by
  unfold decrefConn
  dsimp only
  split
  · have h := (l.decrefConnNull i).sheds_connDone i
    rwa [decrefConnNull_net] at h
  · rw [decrefConnNull_net]
    exact Sheds.refl _

/-- By induction on what the pool holds. -/
theorem sheds_dropPool (ts : List (Endpoint × ConnIx)) :
    Sheds l.sh.net.table (l.dropPool ts).sh.net.table := by
  induction ts generalizing l with
  | nil => exact Sheds.refl _
  | cons t ts ih =>
      exact ((l.sheds_connClose t.2).trans ((l.connClose t.2).sheds_decrefConn t.2)).trans (ih _)

/-- By induction on what the list holds. -/
theorem sheds_dropList (es : List (Nat × Entry)) :
    Sheds l.sh.net.table (l.dropList es).sh.net.table := by
  induction es generalizing l with
  | nil => exact Sheds.refl _
  | cons e es ih =>
      refine Sheds.trans ?_ (ih ((l.decrefConn e.2.server).decrefReq e.2.req))
      rw [decrefReq_net]
      exact l.sheds_decrefConn e.2.server

/-- An I/O step that does not wait differs in heap objects, descriptors, history
    and the fault. -/
structure IoQuiet (l l' : Local) : Prop where
  c : l'.c = l.c
  cxt : l'.cl.cxt = l.cl.cxt
  req : l'.cl.req = l.cl.req
  reqWait : l'.cl.reqWait = l.cl.reqWait
  rsp : l'.cl.rsp = l.cl.rsp
  rspWait : l'.cl.rspWait = l.cl.rspWait
  mainStat : l'.sh.mainStat = l.sh.mainStat
  main : l'.sh.main = l.sh.main
  callCxt : l'.sh.callCxt = l.sh.callCxt
  ev : l'.sh.ev = l.sh.ev
  dns : l'.sh.dns = l.sh.dns
  sheds : Sheds l.sh.net.table l'.sh.net.table

/-- A step is quiet that sheds, and changes the record, heap objects and descriptors only. -/
theorem ioQuiet_of {l l' : Local} (h : Frame l { l' with cl.hist := l.cl.hist })
    (hsheds : Sheds l.sh.net.table l'.sh.net.table) : IoQuiet l l' := by
  obtain ⟨h₁, h₂, h₃, h₄, h₅, h₆, -, h₈, h₉, h₁₀, h₁₁, h₁₂⟩ := h
  exact ⟨h₁, h₂, h₃, h₄, h₅, h₆, h₈, h₉, h₁₀, h₁₁, h₁₂, hsheds⟩

/-- A system call is quiet: it moves bytes and is recorded. -/
theorem ioQuiet_sysIo (side : Side) (r : Role) (q : SysReq) (res : SysRes) :
    IoQuiet l (l.sysIo side r i q res) := by
  unfold sysIo
  dsimp only
  split <;> exact ioQuiet_of (by simp [Frame]) (Sheds.refl _)

/-- A step of a program is quiet, or the coroutine waits at the program. -/
theorem ioStep_cases {l l' : Local} {side : Side} {srv : ConnIx} {ch : Choice} {α : Type}
    {p p' : Io α} (h : l.ioStep side srv ch p = some (l', p')) :
    IoQuiet l l' ∨ ∃ r d k, p = .call (.yield r d) k ∧ p' = p ∧
      l' = l.park side (.io (l.cl.mem.conns (r.ix srv)).fd d) := by
  cases p with
  | ret a => simp [ioStep] at h
  | iter body s k =>
      simp only [ioStep, Option.some.injEq, Prod.mk.injEq] at h
      exact .inl (h.1 ▸ ioQuiet_of (by simp [Frame]) (Sheds.refl _))
  | call o k =>
      simp only [ioStep] at h
      split at h
      · simp only [Option.some.injEq, Prod.mk.injEq] at h
        exact .inl (h.1 ▸ ioQuiet_of (by simp [Frame]) (by simpa using Sheds.refl _))
      · cases o with
        | mainStat | stat r | getBuf r | setBuf r b | mark a | log size | ub =>
            simp only [ioOp, Option.some.injEq, Prod.mk.injEq] at h
            exact .inl (h.1 ▸ ioQuiet_of (by simp [Frame]) (by simpa using Sheds.refl _))
        | sys r q =>
            simp only [ioOp] at h
            split at h
            · split at h
              · simp only [Option.some.injEq, Prod.mk.injEq] at h
                exact .inl (h.1 ▸ l.ioQuiet_sysIo _ _ _ _ _)
              · exact absurd h (by simp)
            · exact absurd h (by simp)
        | yield r d =>
            simp only [ioOp, Option.some.injEq, Prod.mk.injEq] at h
            exact .inr ⟨r, d, k, rfl, h.2.symm, h.1.symm⟩
        | close r =>
            simp only [ioOp, Option.some.injEq, Prod.mk.injEq] at h
            exact .inl (h.1 ▸ ioQuiet_of (by simp [Frame]) (l.sheds_connClose _))

end Local
end HttpProxy
