/-
  HttpProxy.System.Targets

  What a request asks for: its host and its port (`Mem.target`).  A target is fixed
  when the request is allocated; taking and dropping references, everything done to
  connections and adding a Host field leave all targets as they are (`SameTargets`).

  The DNS cache is only written where a lookup returns: no other step of a coroutine
  and no step of the main loop changes it.
-/

import HttpProxy.System.Conns
import HttpProxy.Notify.Lookups

namespace HttpProxy

open Lib

-- ============================================================================
-- Targets
-- ============================================================================

/-- The host and the port of a request. -/
def Mem.target (m : Mem) (j : ReqIx) : Bytes × Int :=
  ((m.reqs j).req.data.buf.str (m.reqs j).req.host, (m.reqs j).req.port)

@[simp] theorem Mem.setConn_target (m : Mem) (i : ConnIx) (f : Conn → Conn) :
    (m.setConn i f).target = m.target := rfl

/-- Overwriting a request keeps the targets when it keeps that one. -/
theorem Mem.setReq_target (m : Mem) (j : ReqIx) (f : Req → Req)
    (hbuf : (f (m.reqs j)).req.data.buf = (m.reqs j).req.data.buf)
    (hhost : (f (m.reqs j)).req.host = (m.reqs j).req.host)
    (hport : (f (m.reqs j)).req.port = (m.reqs j).req.port) :
    (m.setReq j f).target = m.target := by
  funext k
  by_cases hk : k = j
  · subst hk
    simp [target, setReq, hbuf, hhost, hport]
  · simp [target, setReq, Function.update_of_ne hk]

namespace Local

/-- The requests of `l'` have the targets they have in `l`. -/
abbrev SameTargets (l l' : Local) : Prop := l'.cl.mem.target = l.cl.mem.target

variable (l : Local) (i : ConnIx) (j : ReqIx)

@[simp] theorem raise_targets (f : Fault) : SameTargets l (l.raise f) := rfl

@[simp] theorem connDel_targets : SameTargets l (l.connDel i) := rfl

@[simp] theorem closeFd_targets : SameTargets l (l.closeFd i) := rfl

@[simp] theorem connClose_targets : SameTargets l (l.connClose i) := by
  unfold connClose
  split <;> rfl

@[simp] theorem connDone_targets : SameTargets l (l.connDone i) := by
  unfold connDone
  split <;> simp [SameTargets]

@[simp] theorem increfConn_targets : SameTargets l (l.increfConn i) := by
  unfold increfConn
  split <;> rfl

@[simp] theorem decrefConnNull_targets : SameTargets l (l.decrefConnNull i) := by
  unfold decrefConnNull
  split <;> rfl

@[simp] theorem decrefConn_targets : SameTargets l (l.decrefConn i) := by
  unfold decrefConn
  dsimp only
  split <;> simp [SameTargets]

@[simp] theorem increfReq_targets : SameTargets l (l.increfReq j) := by
  unfold increfReq
  split
  · rfl
  · exact l.cl.mem.setReq_target j (fun r => { r with cnt := r.cnt + 1 }) rfl rfl rfl

@[simp] theorem decrefReq_targets : SameTargets l (l.decrefReq j) := by
  unfold decrefReq
  split
  · rfl
  · exact l.cl.mem.setReq_target j (fun r => { r with cnt := r.cnt - 1 }) rfl rfl rfl

@[simp] theorem connInit_targets : SameTargets l (l.connInit i) := rfl

@[simp] theorem newConn_targets (fd : Fd) (ep : Endpoint) (ok : Bool) :
    SameTargets l (l.newConn fd ep ok) := rfl

@[simp] theorem park_targets (side : Side) (x : Wait) : SameTargets l (l.park side x) := by
  cases side <;> cases x <;> rfl

@[simp] theorem dropPool_targets (ts : List (Endpoint × ConnIx)) :
    SameTargets l (l.dropPool ts) := by
  induction ts generalizing l with
  | nil => rfl
  | cons t ts ih => simp [SameTargets, dropPool, ih]

@[simp] theorem dropList_targets (es : List (Nat × Entry)) : SameTargets l (l.dropList es) := by
  induction es generalizing l with
  | nil => rfl
  | cons e es ih => simp [SameTargets, dropList, ih]

@[simp] theorem reqFailed_targets (server : Option ConnIx) :
    SameTargets l (l.reqFailed j server) := by
  cases server <;> simp [SameTargets, reqFailed]

@[simp] theorem pooled_targets : SameTargets l (l.pooled i) := by
  unfold pooled
  dsimp only
  split <;> simp [SameTargets]

@[simp] theorem evicted_targets (ep : Endpoint) (s : ConnIx) : SameTargets l (l.evicted ep s) := by
  simp [SameTargets, evicted]

@[simp] theorem appendEntry_targets (s : ConnIx) : SameTargets l (l.appendEntry j s) := by
  simp [SameTargets]

/-- Adding a Host field leaves the host as it is. -/
@[simp] theorem withHost_targets : SameTargets l (l.withHost j) := by
  unfold withHost
  refine l.cl.mem.setReq_target j (fun r => { r with req := _ }) ?_ rfl rfl
  dsimp only
  split <;> rfl

/-- A new request leaves the others as they are. -/
theorem begun_target (data : NetData) (kind : HandlerKind) {k : ReqIx} (hk : k < l.cl.mem.nreq) :
    (l.begun data kind).cl.mem.target k = l.cl.mem.target k := by
  have hne : k ≠ l.cl.mem.nreq := Nat.ne_of_lt hk
  simp [begun, newReq, Mem.target, Function.update_of_ne hne]

end Local

/-- An operation changes no target. -/
theorem IoCase.sameTargets {l l' : Local} {side : Side} {srv : ConnIx} {α : Type} {p p' : Io α}
    (h : IoCase l side srv p l' p') : l.SameTargets l' := by
  cases h with
  | unroll body s k => rfl
  | stuck o k f => rfl
  | yield r d k hfreed => exact l.park_targets side _
  | act hfreed hact =>
      cases hact with
      | sys r q res hok => cases q <;> cases res <;> rfl
      | close r => exact l.connClose_targets _
      | _ => rfl

-- ============================================================================
-- The DNS cache
-- ============================================================================

namespace Local

/-- `l'` has the DNS cache of `l`. -/
abbrev SameCache (l l' : Local) : Prop := l'.sh.dns.cache = l.sh.dns.cache

variable (l : Local) (i : ConnIx) (j : ReqIx)

@[simp] theorem park_cache (side : Side) (x : Wait) : SameCache l (l.park side x) := by
  cases side <;> cases x <;> rfl

@[simp] theorem noServer_cache : SameCache l (l.noServer j) := rfl

@[simp] theorem reqFailed_cache (server : Option ConnIx) : SameCache l (l.reqFailed j server) := by
  cases server <;> simp [SameCache, reqFailed]

@[simp] theorem begun_cache (data : NetData) (kind : HandlerKind) :
    SameCache l (l.begun data kind) := rfl

@[simp] theorem withHost_cache : SameCache l (l.withHost j) := rfl

@[simp] theorem appendEntry_cache (s : ConnIx) : SameCache l (l.appendEntry j s) := by
  simp [SameCache, appendEntry]

@[simp] theorem connected_cache (s : ConnIx) : SameCache l (l.connected j s) :=
  l.appendEntry_cache j s

@[simp] theorem forwarded_cache (s : ConnIx) : SameCache l (l.forwarded j s) := by
  unfold forwarded
  dsimp only
  split <;> exact l.appendEntry_cache j s

@[simp] theorem pooled_cache : SameCache l (l.pooled i) := by
  unfold pooled
  dsimp only
  split <;> simp [SameCache]

@[simp] theorem evicted_cache (ep : Endpoint) (s : ConnIx) : SameCache l (l.evicted ep s) := by
  simp [SameCache, evicted]

theorem gotServer_cache (s : ConnIx) : SameCache l (l.gotServer j s) := by
  have hgot := l.gotServer_cases j s
  generalize l.gotServer j s = l₂ at hgot ⊢
  cases hgot with
  | http _ => exact l.withHost_cache j
  | connect _ => exact l.connected_cache j s

end Local

theorem IoCase.sameCache {l l' : Local} {side : Side} {srv : ConnIx} {α : Type} {p p' : Io α}
    (h : IoCase l side srv p l' p') : l.SameCache l' := by
  cases h with
  | unroll body s k => rfl
  | stuck o k f => rfl
  | yield r d k hfreed => exact l.park_cache side _
  | act hfreed hact =>
      cases hact with
      | sys r q res hok => cases q <;> cases res <;> rfl
      | close r => simp [Local.SameCache]
      | _ => rfl

end HttpProxy
