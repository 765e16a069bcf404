/-
  HttpProxy.Stream.Relay

  What a relay is for, above the scripts of HttpProxy.Stream.Wire: bytes leave
  one stream and join another.  `Moved src w w' got put` says that exactly `got`
  was taken from the stream of `src` and exactly `put` was accepted by the other
  connection; a `Relay` moreover leaves both connections as they were.  Both
  compose.
-/

import HttpProxy.Stream.Wire

namespace HttpProxy

open Lib

-- ============================================================================
-- Streams
-- ============================================================================

/-- The bytes a script of arrivals delivers. -/
def stream : List Arrival → Bytes
  | [] => []
  | .block :: inp => stream inp
  | .data b bs :: inp => b :: bs ++ stream inp
  | .fail :: _ => []

/-- How many bytes a script of grants takes; `none` is no limit. -/
def capacity : List Grant → Option Nat
  | [] => none
  | .block :: out => capacity out
  | .accept n :: out => (capacity out).map (· + (n + 1))
  | .fail :: _ => some 0

theorem stream_pushData (bs : Bytes) (inp : List Arrival) :
    stream (pushData bs inp) = bs ++ stream inp := by
  cases bs with
  | nil => rfl
  | cons b bs => rfl

theorem capacity_pushAccept (n : Nat) (out : List Grant) :
    capacity (pushAccept n out) = (capacity out).map (· + n) := by
  cases n with
  | zero => simp [pushAccept]
  | succ n => rfl

namespace Wire

/-- What is still to be received on a connection. -/
def incoming (w : Wire) (r : Role) : Bytes :=
  if w.mainStat = .running ∧ (w.sock r).isOpen then stream (w.sock r).inp else []

/-- What is still to be read from a connection: what is buffered, then what arrives. -/
def unread (w : Wire) (r : Role) : Bytes :=
  (w.sock r).io.buf.drop (w.sock r).io.bufS ++ w.incoming r

/-- How many bytes a connection will still take. -/
def room (w : Wire) (r : Role) : Option Nat :=
  if w.mainStat = .running ∧ (w.sock r).isOpen ∧ (w.sock r).stat ≠ .closed then
    capacity (w.sock r).out
  else some 0

/-- The next `n` bytes written to the connection are taken. -/
def Takes (w : Wire) (r : Role) (n : Nat) : Prop := ∀ k ∈ w.room r, n ≤ k

/-- The connection takes whatever is written to it. -/
def Willing (w : Wire) (r : Role) : Prop := w.room r = none

/-- The connection is not `CONN_CLOSED`: a call on it waits where it would block. -/
def Live (w : Wire) (r : Role) : Prop := (w.sock r).stat ≠ .closed

variable {w : Wire} {r : Role}

theorem Willing.takes (h : w.Willing r) (n : Nat) : w.Takes r n := by
  intro k hk
  rw [h] at hk
  exact absurd hk (by simp)

theorem Willing.live (h : w.Willing r) : w.Live r := by
  intro hstat
  simp [Willing, room, hstat] at h

/-- A connection with a limit to its room is not willing. -/
theorem not_willing {k : Nat} (h : w.room r = some k) : ¬ w.Willing r := by
  intro hw
  rw [hw] at h
  exact absurd h (by simp)

theorem Takes.mono {m n : Nat} (h : w.Takes r n) (hmn : m ≤ n) : w.Takes r m :=
  fun k hk => Nat.le_trans hmn (h k hk)

theorem takes_zero : w.Takes r 0 := fun k _ => Nat.zero_le k

/-- A connection that takes bytes is not closed. -/
theorem Takes.live {n : Nat} (h : w.Takes r n) (hn : 0 < n) : w.Live r := by
  intro hstat
  have hroom : w.room r = some 0 := by simp [room, hstat]
  have hle := h 0 (by rw [hroom]; rfl)
  omega

theorem incoming_of_not_open (h : (w.sock r).isOpen = false) : w.incoming r = [] := by
  simp [incoming, h]

theorem unread_set_other (s : Sock) : (w.set r.other s).unread r = w.unread r := by
  simp [unread, incoming]

theorem room_set_other (s : Sock) : (w.set r s).room r.other = w.room r.other := by
  simp [room]

end Wire

/-- A connection as `conn_init` leaves it. -/
def Sock.fresh (inp : List Arrival) (out : List Grant) : Sock where
  stat := .used
  isOpen := true
  io := { buf := [], bufS := 0, rx := 0, tx := 0 }
  inp := inp
  out := out
  sent := []

/-- The proxy is running and works on two fresh connections. -/
def Wire.fresh (client server : List Arrival × List Grant) : Wire where
  mainStat := .running
  sock
    | .client => .fresh client.1 client.2
    | .server => .fresh server.1 server.2

theorem Wire.fresh_ok (client server : List Arrival × List Grant) :
    (Wire.fresh client server).Ok := by
  intro r
  cases r <;> exact ⟨Nat.le_refl 0, Nat.zero_le _⟩

theorem Wire.fresh_live (client server : List Arrival × List Grant) (r : Role) :
    (Wire.fresh client server).Live r := by
  cases r <;> exact fun h => nomatch h

/-- A fresh pair of connections whose server sends `u`. -/
def Wire.serving (u : Bytes) : Wire := .fresh ([], []) (pushData u [], [])

theorem Wire.serving_unread (u : Bytes) : (Wire.serving u).unread .server = u := by
  show [] ++ stream (pushData u []) = u
  rw [stream_pushData]
  simp [stream]

theorem Wire.serving_ok (u : Bytes) : (Wire.serving u).Ok := Wire.fresh_ok _ _

theorem Wire.serving_live (u : Bytes) : (Wire.serving u).Live .server := Wire.fresh_live _ _ _

theorem Wire.serving_willing (u : Bytes) : (Wire.serving u).Willing Role.server.other := rfl

-- ============================================================================
-- Relays
-- ============================================================================

/-- From `w` to `w'` exactly `got` was read from `src` and exactly `put` was taken by
    the other connection, which is otherwise as it was. -/
structure Moved (src : Role) (w w' : Wire) (got put : Bytes) : Prop where
  mainStat : w'.mainStat = w.mainStat
  unread : w.unread src = got ++ w'.unread src
  sentSrc : (w'.sock src).sent = (w.sock src).sent
  outSrc : (w'.sock src).out = (w.sock src).out
  stat : (w'.sock src.other).stat = (w.sock src.other).stat
  isOpen : (w'.sock src.other).isOpen = (w.sock src.other).isOpen
  unreadDst : w'.unread src.other = w.unread src.other
  sent : (w'.sock src.other).sent = (w.sock src.other).sent ++ put
  room : w'.room src.other = (w.room src.other).map (· - put.length)

/-- A `Moved` that leaves `src` open or closed as it was, too. -/
structure Relay (src : Role) (w w' : Wire) (got put : Bytes) : Prop
    extends Moved src w w' got put where
  statSrc : (w'.sock src).stat = (w.sock src).stat
  isOpenSrc : (w'.sock src).isOpen = (w.sock src).isOpen

section

variable {src : Role} {w w' w₁ w₂ : Wire} {got put got' put' : Bytes}

theorem Moved.refl (src : Role) (w : Wire) : Moved src w w [] [] where
  mainStat := rfl
  unread := rfl
  sentSrc := rfl
  outSrc := rfl
  stat := rfl
  isOpen := rfl
  unreadDst := rfl
  sent := (List.append_nil _).symm
  room := by simp

theorem Moved.trans (h : Moved src w w₁ got put) (h' : Moved src w₁ w₂ got' put') :
    Moved src w w₂ (got ++ got') (put ++ put') where
  mainStat := h'.mainStat.trans h.mainStat
  unread := by rw [h.unread, h'.unread, List.append_assoc]
  sentSrc := h'.sentSrc.trans h.sentSrc
  outSrc := h'.outSrc.trans h.outSrc
  stat := h'.stat.trans h.stat
  isOpen := h'.isOpen.trans h.isOpen
  unreadDst := h'.unreadDst.trans h.unreadDst
  sent := by rw [h'.sent, h.sent, List.append_assoc]
  room := by
    rw [h'.room, h.room, Option.map_map]
    congr 1
    funext n
    simp only [Function.comp, List.length_append]
    omega

theorem Relay.refl (src : Role) (w : Wire) : Relay src w w [] [] where
  toMoved := .refl src w
  statSrc := rfl
  isOpenSrc := rfl

theorem Relay.trans (h : Relay src w w₁ got put) (h' : Relay src w₁ w₂ got' put') :
    Relay src w w₂ (got ++ got') (put ++ put') where
  toMoved := h.toMoved.trans h'.toMoved
  statSrc := h'.statSrc.trans h.statSrc
  isOpenSrc := h'.isOpenSrc.trans h.isOpenSrc

/-- A relay leaves its source open or closed as it was. -/
theorem Relay.live (h : Relay src w w' got put) (hlive : w.Live src) : w'.Live src := by
  rw [Wire.Live, h.statSrc]
  exact hlive

/-- What is unread is what has not been read. -/
theorem Moved.unread_rest {rest : Bytes} (h : Moved src w w' got put)
    (hu : w.unread src = got ++ rest) : w'.unread src = rest :=
  (List.append_cancel_left (hu.symm.trans h.unread)).symm

/-- The end of what was read, between its beginning and what is unread. -/
theorem Moved.got_end {line t u rest : Bytes} (h : Moved src w w' (line ++ t) put)
    (hu : w.unread src = line ++ u ++ rest) (hrest : w'.unread src = rest) : u = t := by
  have happ := h.unread
  rw [hu, hrest] at happ
  exact List.append_cancel_left (List.append_cancel_right happ)

theorem Moved.live_other (h : Moved src w w' got put) (hlive : w.Live src.other) :
    w'.Live src.other := by
  rw [Wire.Live, h.stat]
  exact hlive

theorem Moved.willing (h : Moved src w w' got put) (hw : w.Willing src.other) :
    w'.Willing src.other := by
  have hroom := h.room
  rw [show w.room src.other = none from hw] at hroom
  exact hroom

theorem Moved.takes (h : Moved src w w' got put) {n : Nat} :
    w'.Takes src.other n ↔ ∀ k ∈ w.room src.other, n ≤ k - put.length := by
  unfold Wire.Takes
  rw [h.room]
  simp

theorem Moved.takes_nil (h : Moved src w w' got []) {n : Nat} :
    w'.Takes src.other n ↔ w.Takes src.other n := by
  rw [h.takes]
  rfl

/-- The room behind a relay is what the relay has left of it. -/
theorem Moved.takes_append (h : Moved src w w₁ got put) :
    w.Takes src.other (put ++ put').length ↔
      w.Takes src.other put.length ∧ w₁.Takes src.other put'.length := by
  rw [h.takes, List.length_append]
  refine ⟨fun ht => ⟨fun k hk => ?_, fun k hk => ?_⟩, fun ⟨ht, ht'⟩ k hk => ?_⟩
  · have hle := ht k hk
    omega
  · have hle := ht k hk
    omega
  · have hle := ht k hk
    have hle' := ht' k hk
    omega

/-- One byte more. -/
theorem Moved.takes_succ (h : Moved src w w₁ got put) :
    w.Takes src.other (put.length + 1) ↔ w.Takes src.other put.length ∧ w₁.Takes src.other 1 := by
  have happ : w.Takes src.other (put ++ [0]).length ↔
      w.Takes src.other put.length ∧ w₁.Takes src.other ([0] : Bytes).length := h.takes_append
  rwa [List.length_append] at happ

/-- Reading changes the buffer and the arrivals of one connection. -/
theorem Relay.of_read {io : IoBuf} {inp : List Arrival}
    (hunread : w.unread src = got ++ (w.set src { w.sock src with io, inp }).unread src) :
    Relay src w (w.set src { w.sock src with io, inp }) got [] where
  mainStat := rfl
  unread := hunread
  sentSrc := by simp
  outSrc := by simp
  stat := by simp
  isOpen := by simp
  unreadDst := by simp [Wire.unread, Wire.incoming]
  sent := by simp
  room := by simp [Wire.room]
  statSrc := by simp
  isOpenSrc := by simp

/-- Writing changes the grants and the byte counter of the other connection. -/
theorem Relay.of_write {tx : Int} {out : List Grant} {sent : Bytes}
    (hsent : sent = (w.sock src.other).sent ++ put)
    (hstat : (w.sock src.other).stat ≠ .closed) (hopen : (w.sock src.other).isOpen = true)
    (hrun : w.mainStat = .running)
    (hroom : capacity out = (capacity (w.sock src.other).out).map (· - put.length)) :
    Relay src w
      (w.set src.other { w.sock src.other with io.tx := tx, out, sent }) [] put where
  mainStat := rfl
  unread := by rw [Wire.unread_set_other]; rfl
  sentSrc := by simp
  outSrc := by simp
  stat := by simp
  isOpen := by simp
  unreadDst := by simp [Wire.unread, Wire.incoming]
  sent := by simp [hsent]
  room := by simp [Wire.room, hstat, hopen, hrun, hroom]
  statSrc := by simp
  isOpenSrc := by simp

end

end HttpProxy
