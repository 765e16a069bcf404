/-
  HttpProxy.Store.NetData

  `struct net_data` as a map: net_data_set_ent, net_data_set_ent_offset,
  net_data_del_ent and the lookups on the uthash table itself, entries and all.

  The setters no longer look for an entry with their key, so one key can have
  several; which of them a lookup meets is up to the chain of its bucket, and
  net_data_del_ent takes only one away.  The loop of net_data_set_ent that copies
  the value does not advance in it (`strbufAppendWhile`).

  Where nothing is deleted the entries do without their addresses: `Entries` is the
  step to the `NetData` of the parsers, which has the same lookups.
-/

import HttpProxy.Lib.UtHash
import HttpProxy.Stream.Buffer
import HttpProxy.Stream.Lookup

namespace HttpProxy

open Lib

-- ============================================================================
-- struct net_data
-- ============================================================================

/-- An allocated `struct net_header_ent`. -/
structure HeaderSlot extends NetHeaderEnt where
  addr : Nat
deriving DecidableEq

/-- `HASH_FCN` on the hash key of an entry. -/
def HeaderSlot.hashv (e : HeaderSlot) : Nat := e.toNetHeaderEnt.hashv

/-- The comparison of `HASH_FIND_STR`. -/
def HeaderSlot.hasKey (key : Bytes) (e : HeaderSlot) : Bool := e.toNetHeaderEnt.hasKey key

/-- `struct net_data`.  `fresh` is the next address `mem_alloc` returns, and `heap n` what the
    memory there holds behind the key of an entry. -/
structure NetMap where
  buf : Strbuf
  table : UtHash HeaderSlot
  fresh : Nat
  heap : Nat → Bytes

namespace NetMap

/-- `net_data_init` -/
def netDataInit (heap : Nat → Bytes) : NetMap :=
  { buf := strbufInit, table := hashMakeTable, fresh := 0, heap }

/-- `HASH_FIND_STR(data->table, key, h)` -/
def findStr (data : NetMap) (key : Bytes) : Option HeaderSlot :=
  hashFind data.table (hashJen key).toNat (HeaderSlot.hasKey key)

/-- `net_data_get_ent_offset`; `none` is -1. -/
def netDataGetEntOffset (data : NetMap) (key : Bytes) : Option Nat :=
  (data.findStr key).map (·.valOffset)

/-- `net_data_get_ent`: the string at the pointer it returns; `none` is NULL. -/
def netDataGetEnt (data : NetMap) (key : Bytes) : Option Bytes :=
  (data.netDataGetEntOffset key).map data.buf.str

/-- `net_data_del_ent` -/
def netDataDelEnt (data : NetMap) (key : Bytes) : NetMap :=
  match data.findStr key with
  | none => data
  | some h => { data with table := hashDelete HeaderSlot.hashv data.table h }

/-- The entry a setter allocates. -/
def newSlot (data : NetMap) (key : Bytes) (offset : Nat) : HeaderSlot :=
  { NetHeaderEnt.ofKey (data.heap data.fresh) key offset with addr := data.fresh }

/-- `net_data_set_ent_offset` -/
def netDataSetEntOffset (data : NetMap) (key : Bytes) (offset : Nat) : NetMap :=
  { data with
    table := hashAdd HeaderSlot.hashv data.table (data.newSlot key offset)
    fresh := data.fresh + 1 }

/-- `while (*val) strbuf_append(&data->buf, *val);` for `fuel` rounds: `val` stays
    where it is. -/
def strbufAppendWhile : Nat → Bytes → Strbuf → Option Strbuf
  | _, [], buf => some buf
  | 0, _ :: _, _ => none
  | fuel + 1, c :: val, buf => strbufAppendWhile fuel (c :: val) (strbufAppend buf c)

/-- `net_data_set_ent`, with `fuel` rounds of its loop. -/
def netDataSetEnt (fuel : Nat) (data : NetMap) (key val : Bytes) : Option NetMap := do
  let data := data.netDataSetEntOffset key data.buf.len
  let buf ← strbufAppendWhile fuel val data.buf
  return { data with buf := strbufAppend buf 0 }

end NetMap

-- ============================================================================
-- Histories
-- ============================================================================

/-- A call on a `struct net_data`. -/
inductive NetDataOp where
  | getEnt (key : Bytes)
  | setEnt (key val : Bytes)
  | setEntOffset (key : Bytes) (offset : Nat)
  | delEnt (key : Bytes)

/-- The call changes the entry of this key. -/
def NetDataOp.Changes (key : Bytes) : NetDataOp → Prop
  | getEnt _ => False
  | setEnt k _ => k = key
  | setEntOffset k _ => k = key
  | delEnt k => k = key

/-- Keys are C strings that fit the array of an entry; values are C strings. -/
def NetDataOp.Valid : NetDataOp → Prop
  | getEnt _ => True
  | setEnt key val => key.length < HTTP_HEADER_KEY_MAXLEN ∧ 0 ∉ key ∧ 0 ∉ val
  | setEntOffset key _ => key.length < HTTP_HEADER_KEY_MAXLEN ∧ 0 ∉ key
  | delEnt key => key.length < HTTP_HEADER_KEY_MAXLEN ∧ 0 ∉ key

namespace NetMap

def exec (fuel : Nat) (data : NetMap) : NetDataOp → Option NetMap
  | .getEnt _ => some data
  | .setEnt key val => data.netDataSetEnt fuel key val
  | .setEntOffset key offset => some (data.netDataSetEntOffset key offset)
  | .delEnt key => some (data.netDataDelEnt key)

/-- The call returns and leaves `data'`. -/
def Runs (data : NetMap) (op : NetDataOp) (data' : NetMap) : Prop :=
  ∃ fuel, data.exec fuel op = some data'

/-- What a call has to leave for the key it changes. -/
def Updated (data : NetMap) : NetDataOp → Prop
  | .getEnt _ => True
  | .setEnt key val => data.netDataGetEnt key = some val
  | .setEntOffset key offset => data.netDataGetEntOffset key = some offset
  | .delEnt key => data.netDataGetEntOffset key = none

/-- The lookup of the key gives the same offset, and the same string where the offset
    is within the buffer. -/
def SameEnt (data data' : NetMap) (key : Bytes) : Prop :=
  data'.netDataGetEntOffset key = data.netDataGetEntOffset key ∧
    ∀ offset ∈ data.netDataGetEntOffset key, offset ≤ data.buf.len →
      data'.buf.str offset = data.buf.str offset

/-- The laws of a map for one call. -/
structure Lawful (data : NetMap) (op : NetDataOp) : Prop where
  terminates : ∃ data', data.Runs op data'
  updated : ∀ data', data.Runs op data' → data'.Updated op
  others : ∀ data', data.Runs op data' → ∀ key, ¬ op.Changes key → data.SameEnt data' key

/-- No two entries have this key. -/
def Single (data : NetMap) (key : Bytes) : Prop :=
  ∀ x ∈ data.table.items, ∀ y ∈ data.table.items, x.key = key → y.key = key → x = y

/-- Another entry with this key does not turn the chains round, or there is nothing to
    turn: no key has two entries, and this one has none. -/
def Keeps (data : NetMap) (key : Bytes) : Prop :=
  hashExpands HeaderSlot.hashv data.table (data.newSlot key 0) = false ∨
    (∀ k, data.Single k) ∧ ∀ x ∈ data.table.items, x.key ≠ key

/-- The calls on which a `net_data` is a map. -/
def Fits (data : NetMap) : NetDataOp → Prop
  | .getEnt _ => True
  | .setEnt key val => val = [] ∧ data.Keeps key
  | .setEntOffset key _ => data.Keeps key
  | .delEnt key => data.Single key

/-- No entry yet; the buffer may hold what was read into it. -/
def Fresh (data : NetMap) : Prop := data.table = hashMakeTable ∧ ∃ s, data.buf.Holds s

/-- The states that calls which fit lead to. -/
inductive Reached : NetMap → Prop where
  | start {data : NetMap} : data.Fresh → Reached data
  | step {data data' : NetMap} {op : NetDataOp} :
      Reached data → op.Valid → data.Fits op → data.Runs op data' → Reached data'

/-- What every call keeps. -/
structure Ok (data : NetMap) : Prop where
  placed : data.table.Placed HeaderSlot.hashv
  distinct : data.table.Distinct
  addr : ∀ e ∈ data.table.items, e.addr < data.fresh
  short : ∀ e ∈ data.table.items, e.key.length < HTTP_HEADER_KEY_MAXLEN
  holds : ∃ s, data.buf.Holds s

section

variable {data data' : NetMap} {key val : Bytes} {offset : Nat} {op : NetDataOp}

-- ============================================================================
-- Keys
-- ============================================================================

theorem hasKey_hashv (e : HeaderSlot) (h : e.hasKey key = true) :
    e.hashv = (hashJen key).toNat :=
  e.toNetHeaderEnt.hasKey_hashv h

/-- A lookup meets the entries with its key, where no key fills the array. -/
theorem hasKey_iff {e : HeaderSlot} (h : e.key.length < HTTP_HEADER_KEY_MAXLEN) :
    e.hasKey key = true ↔ e.key = key := by
  rw [HeaderSlot.hasKey, NetHeaderEnt.hasKey_eq, NetHeaderEnt.hashKey_short h]

theorem newSlot_key (h : key.length < HTTP_HEADER_KEY_MAXLEN) :
    (data.newSlot key offset).key = key :=
  List.take_of_length_le (Nat.le_of_lt h)

theorem newSlot_hasKey {other : Bytes} (h : key.length < HTTP_HEADER_KEY_MAXLEN) :
    (data.newSlot key offset).hasKey other = true ↔ key = other := by
  have hkey : (data.newSlot key offset).key = key := newSlot_key h
  rw [hasKey_iff (by rw [hkey]; exact h), hkey]

theorem Ok.newSlot_notMem (h : data.Ok) : data.newSlot key offset ∉ data.table.items := by
  intro hmem
  exact absurd (h.addr _ hmem) (Nat.lt_irrefl _)

-- ============================================================================
-- Adding an entry
-- ============================================================================

theorem Ok.setEntOffset (h : data.Ok) (hkey : key.length < HTTP_HEADER_KEY_MAXLEN) :
    (data.netDataSetEntOffset key offset).Ok where
  placed := h.placed.add
  distinct := h.distinct.add h.placed h.newSlot_notMem
  addr e he := by
    rw [netDataSetEntOffset, hashAdd_items, List.mem_append, List.mem_singleton] at he
    rcases he with he | rfl
    · exact Nat.lt_succ_of_lt (h.addr e he)
    · exact Nat.lt_succ_self _
  short e he := by
    rw [netDataSetEntOffset, hashAdd_items, List.mem_append, List.mem_singleton] at he
    rcases he with he | rfl
    · exact h.short e he
    · rw [newSlot_key hkey]
      exact hkey
  holds := h.holds

/-- Whether adding an entry expands the table depends on its key only. -/
theorem hashExpands_newSlot (offset : Nat) :
    hashExpands HeaderSlot.hashv data.table (data.newSlot key offset) =
      hashExpands HeaderSlot.hashv data.table (data.newSlot key 0) := rfl

theorem Keeps.find_self (hkeeps : data.Keeps key) (h : data.Ok)
    (hkey : key.length < HTTP_HEADER_KEY_MAXLEN) :
    (data.netDataSetEntOffset key offset).netDataGetEntOffset key = some offset := by
  have hnew : (data.newSlot key offset).hasKey key = true :=
    (newSlot_hasKey hkey).mpr rfl
  have hfind : (data.netDataSetEntOffset key offset).findStr key =
      some (data.newSlot key offset) := by
    rcases hkeeps with hstay | ⟨-, hnone⟩
    · rw [← hashExpands_newSlot offset] at hstay
      exact (hashAdd_find hstay (hasKey_hashv _)).trans (if_pos hnew)
    · apply h.placed.add.find_one hasKey_hashv (by simp) hnew
      intro x hx hxkey
      rw [hashAdd_items, List.mem_append, List.mem_singleton] at hx
      rcases hx with hx | rfl
      · exact absurd ((hasKey_iff (h.short x hx)).mp hxkey) (hnone x hx)
      · rfl
  rw [netDataGetEntOffset, hfind]
  rfl

theorem Keeps.find_other {other : Bytes} (hkeeps : data.Keeps key) (h : data.Ok)
    (hkey : key.length < HTTP_HEADER_KEY_MAXLEN) (hne : key ≠ other) :
    (data.netDataSetEntOffset key offset).netDataGetEntOffset other =
      data.netDataGetEntOffset other := by
  have hnew : ¬ (data.newSlot key offset).hasKey other = true :=
    fun hhas => hne ((newSlot_hasKey hkey).mp hhas)
  have hfind : (data.netDataSetEntOffset key offset).findStr other = data.findStr other := by
    rcases hkeeps with hstay | ⟨hsingle, -⟩
    · rw [← hashExpands_newSlot offset] at hstay
      exact (hashAdd_find hstay (hasKey_hashv _)).trans (if_neg hnew)
    · apply h.placed.find_congr h.placed.add hasKey_hashv
      · intro e he
        rw [hashAdd_items, List.mem_append, List.mem_singleton]
        constructor
        · rintro (hmem | rfl)
          · exact hmem
          · exact absurd he hnew
        · exact .inl
      · intro x hx y hy hxkey hykey
        exact hsingle other x hx y hy ((hasKey_iff (h.short x hx)).mp hxkey)
          ((hasKey_iff (h.short y hy)).mp hykey)
  rw [netDataGetEntOffset, netDataGetEntOffset, hfind]

-- ============================================================================
-- Tables that are only added to
-- ============================================================================

/-- `d` has the entries of `data` without their addresses, and gets the same memory. -/
structure Entries (data : NetMap) (d : NetData) : Prop where
  buf : data.buf = d.buf
  table : data.table.Alike (fun x e => x.toNetHeaderEnt = e) d.hashTable
  fresh : data.fresh = d.table.length
  heap : data.heap = d.heap

theorem entries_init (heap : Nat → Bytes) :
    (netDataInit heap).Entries (HttpProxy.netDataInit heap) where
  buf := rfl
  table := alike_makeTable
  fresh := rfl
  heap := rfl

theorem Entries.setEntOffset {d : NetData} (h : data.Entries d) :
    (data.netDataSetEntOffset key offset).Entries (HttpProxy.netDataSetEntOffset d key offset) where
  buf := h.buf
  table := by
    have hhash : ∀ (x : HeaderSlot) (e : NetHeaderEnt), x.toNetHeaderEnt = e →
        x.hashv = e.hashv := fun x e hxe => by rw [HeaderSlot.hashv, hxe]
    have hnew : (data.newSlot key offset).toNetHeaderEnt = d.newEnt key offset := by
      show NetHeaderEnt.ofKey (data.heap data.fresh) key offset = _
      rw [h.heap, h.fresh]
      rfl
    rw [NetData.hashTable, HttpProxy.netDataSetEntOffset, hashAddAll_append]
    exact h.table.add hhash hnew
  fresh := by
    show data.fresh + 1 = (d.table ++ [d.newEnt key offset]).length
    rw [h.fresh, List.length_append, List.length_singleton]
  heap := h.heap

/-- The lookups of the parsers are those of the table itself. -/
theorem Entries.getEntOffset {d : NetData} (h : data.Entries d) (key : Bytes) :
    data.netDataGetEntOffset key = HttpProxy.netDataGetEntOffset d key := by
  have hfound : Option.Rel (fun (x : HeaderSlot) (e : NetHeaderEnt) => x.toNetHeaderEnt = e)
      (data.findStr key) (d.findStr key) := by
    apply h.table.find
    intro x e hxe
    rw [HeaderSlot.hasKey, hxe]
  rw [netDataGetEntOffset, HttpProxy.netDataGetEntOffset]
  generalize data.findStr key = x, d.findStr key = y at hfound ⊢
  cases hfound with
  | none => rfl
  | some hxe => exact congrArg (fun e : NetHeaderEnt => some e.valOffset) hxe

theorem Entries.getEnt {d : NetData} (h : data.Entries d) (key : Bytes) :
    data.netDataGetEnt key = HttpProxy.netDataGetEnt d key := by
  rw [netDataGetEnt, HttpProxy.netDataGetEnt, h.getEntOffset, h.buf]

-- ============================================================================
-- Deleting an entry
-- ============================================================================

theorem Ok.delEnt (h : data.Ok) : (data.netDataDelEnt key).Ok := by
  rw [netDataDelEnt]
  split
  · exact h
  · rename_i e _
    have hsub {x : HeaderSlot} (hx : x ∈ (hashDelete HeaderSlot.hashv data.table e).items) :
        x ∈ data.table.items := by
      rw [hashDelete_items] at hx
      exact List.mem_of_mem_erase hx
    exact {
      placed := h.placed.delete h.distinct
      distinct := h.distinct.delete
      addr := fun x hx => h.addr x (hsub hx)
      short := fun x hx => h.short x (hsub hx)
      holds := h.holds }

theorem Single.delEnt_self (hsingle : data.Single key) (h : data.Ok) :
    (data.netDataDelEnt key).netDataGetEntOffset key = none := by
  rw [netDataGetEntOffset, Option.map_eq_none_iff, netDataDelEnt]
  split
  · rename_i hnone
    exact hnone
  · rename_i e he
    obtain ⟨hmem, hhas⟩ := h.placed.find_mem he
    apply ((h.placed.delete h.distinct).find_none_iff hasKey_hashv).mpr
    intro x hx
    rw [hashDelete_items, h.distinct.items.mem_erase_iff] at hx
    by_contra hkey
    rw [Bool.not_eq_false] at hkey
    exact hx.1 (hsingle x hx.2 e hmem ((hasKey_iff (h.short x hx.2)).mp hkey)
      ((hasKey_iff (h.short e hmem)).mp hhas))

theorem Ok.delEnt_other {other : Bytes} (h : data.Ok) (hne : key ≠ other) :
    (data.netDataDelEnt key).netDataGetEntOffset other = data.netDataGetEntOffset other := by
  rw [netDataDelEnt]
  split
  · rfl
  · rename_i e he
    obtain ⟨hmem, hhas⟩ := h.placed.find_mem he
    have hshort := h.short e hmem
    have hnot : e.hasKey other = false := by
      rw [Bool.eq_false_iff]
      intro hother
      exact hne (((hasKey_iff hshort).mp hhas).symm.trans ((hasKey_iff hshort).mp hother))
    rw [netDataGetEntOffset, netDataGetEntOffset, findStr, findStr,
      h.placed.delete_find hnot hasKey_hashv]

-- ============================================================================
-- The buffer
-- ============================================================================

theorem takeWhile_nul (s t : Bytes) :
    (s ++ 0 :: t).takeWhile (· ≠ 0) = s.takeWhile (· ≠ 0) := by
  induction s with
  | nil => simp
  | cons c s ih =>
      rw [List.cons_append, List.takeWhile_cons, List.takeWhile_cons, ih]

/-- A string within the buffer ends at a NUL of the content or at the one behind it. -/
theorem holds_str {b : Strbuf} {s : Bytes} (h : b.Holds s) (hoff : offset ≤ s.length) :
    b.str offset = (s.drop offset).takeWhile (· ≠ 0) := by
  obtain ⟨rest, hp⟩ := h.p
  rw [Strbuf.str, cstrAt, hp, List.drop_append_of_le_length hoff, takeWhile_nul]

/-- A NUL behind the content changes no string. -/
theorem strbufAppend_nul_str {b : Strbuf} {s : Bytes} (h : b.Holds s)
    (hoff : offset ≤ s.length) : (strbufAppend b 0).str offset = b.str offset := by
  have happend : (strbufAppend b 0).Holds (s ++ [0]) := strbufAppend_holds h.raw
  have hlen : offset ≤ (s ++ [0]).length := by
    rw [List.length_append]
    omega
  rw [holds_str happend hlen, holds_str h hoff, List.drop_append_of_le_length hoff,
    takeWhile_nul]

/-- The loop returns when there is nothing to copy. -/
theorem strbufAppendWhile_nil (fuel : Nat) (buf : Strbuf) :
    strbufAppendWhile fuel [] buf = some buf := by
  cases fuel with
  | zero => rfl
  | succ fuel => rfl

theorem strbufAppendWhile_cons (fuel : Nat) (c : UInt8) (buf : Strbuf) :
    strbufAppendWhile fuel (c :: val) buf = none := by
  induction fuel generalizing buf with
  | zero => rfl
  | succ fuel ih => exact ih _

/-- A call that returns whatever the fuel has one outcome. -/
theorem runs_iff {d : NetMap} (hexec : ∀ fuel, data.exec fuel op = some d) :
    data.Runs op data' ↔ data' = d := by
  constructor
  · rintro ⟨fuel, h⟩
    rw [hexec, Option.some.injEq] at h
    exact h.symm
  · rintro rfl
    exact ⟨0, hexec 0⟩

theorem runs_setEnt_nil :
    data.Runs (.setEnt key []) data' ↔ data' = { data.netDataSetEntOffset key data.buf.len with
      buf := strbufAppend data.buf 0 } := by
  apply runs_iff
  intro fuel
  show (strbufAppendWhile fuel [] data.buf).bind _ = _
  rw [strbufAppendWhile_nil]
  rfl

/-- A value that is not empty is never copied. -/
theorem not_runs_setEnt (h : val ≠ []) : ¬ data.Runs (.setEnt key val) data' := by
  obtain ⟨c, val, rfl⟩ := List.exists_cons_of_ne_nil h
  rintro ⟨fuel, hrun⟩
  rw [exec, netDataSetEnt, strbufAppendWhile_cons] at hrun
  exact absurd hrun (by simp)

theorem runs_setEntOffset : data.Runs (.setEntOffset key offset) data' ↔
    data' = data.netDataSetEntOffset key offset :=
  runs_iff fun _ => rfl

theorem runs_delEnt : data.Runs (.delEnt key) data' ↔ data' = data.netDataDelEnt key :=
  runs_iff fun _ => rfl

theorem runs_getEnt : data.Runs (.getEnt key) data' ↔ data' = data :=
  runs_iff fun _ => rfl

-- ============================================================================
-- Histories
-- ============================================================================

theorem Fresh.ok (h : data.Fresh) : data.Ok := by
  obtain ⟨htable, hholds⟩ := h
  constructor
  · rw [htable]
    exact placed_makeTable
  · rw [htable]
    exact distinct_makeTable
  · rw [htable]
    exact fun e he => absurd he List.not_mem_nil
  · rw [htable]
    exact fun e he => absurd he List.not_mem_nil
  · exact hholds

theorem Ok.appendNul (h : data.Ok) : Ok { data with buf := strbufAppend data.buf 0 } where
  placed := h.placed
  distinct := h.distinct
  addr := h.addr
  short := h.short
  holds := by
    obtain ⟨s, hs⟩ := h.holds
    exact ⟨s ++ [0], strbufAppend_holds hs.raw⟩

/-- Every call keeps the table in order, whatever its key. -/
theorem Ok.runs (h : data.Ok) (hvalid : op.Valid) (hrun : data.Runs op data') : data'.Ok := by
  cases op with
  | getEnt key =>
      rw [runs_getEnt.mp hrun]
      exact h
  | setEnt key val =>
      by_cases hval : val = []
      · subst hval
        rw [runs_setEnt_nil.mp hrun]
        exact (h.setEntOffset hvalid.1).appendNul
      · exact absurd hrun (not_runs_setEnt hval)
  | setEntOffset key offset =>
      rw [runs_setEntOffset.mp hrun]
      exact h.setEntOffset hvalid.1
  | delEnt key =>
      rw [runs_delEnt.mp hrun]
      exact h.delEnt

theorem Reached.ok (h : data.Reached) : data.Ok := by
  induction h with
  | start hfresh => exact hfresh.ok
  | step _ hvalid _ hrun ih => exact ih.runs hvalid hrun

theorem SameEnt.of_buf {other : Bytes}
    (h : data'.netDataGetEntOffset other = data.netDataGetEntOffset other)
    (hbuf : data'.buf = data.buf) : data.SameEnt data' other :=
  ⟨h, fun _ _ _ => by rw [hbuf]⟩

/-- The entry of a value that is empty, and the strings of the others. -/
theorem Keeps.setEnt_lawful (hkeeps : data.Keeps key) (h : data.Ok)
    (hkey : key.length < HTTP_HEADER_KEY_MAXLEN) : data.Lawful (.setEnt key []) := by
  obtain ⟨s, hs⟩ := h.holds
  constructor
  · exact ⟨_, runs_setEnt_nil.mpr rfl⟩
  · intro data' hrun
    rw [runs_setEnt_nil.mp hrun]
    have hself : (data.netDataSetEntOffset key data.buf.len).netDataGetEntOffset key =
        some data.buf.len := hkeeps.find_self h hkey
    show ((data.netDataSetEntOffset key data.buf.len).netDataGetEntOffset key).map
      (strbufAppend data.buf 0).str = some []
    rw [hself, Option.map_some, strbufAppend_nul_str hs (Nat.le_of_eq hs.len),
      holds_str hs (Nat.le_of_eq hs.len), hs.len, List.drop_length]
    rfl
  · intro data' hrun other hne
    rw [runs_setEnt_nil.mp hrun]
    refine ⟨hkeeps.find_other h hkey hne, fun offset _ hoff => ?_⟩
    rw [hs.len] at hoff
    exact strbufAppend_nul_str hs hoff

/-- As long as values set by net_data_set_ent are empty, a set does not turn the
    chains of repeated keys round, and what is deleted has one entry at most, a
    `net_data` is a map. -/
theorem netData_lawful (h : data.Reached) (hvalid : op.Valid) (hfits : data.Fits op) :
    data.Lawful op := by
  have hok := h.ok
  cases op with
  | getEnt key =>
      refine ⟨⟨data, runs_getEnt.mpr rfl⟩, fun _ _ => trivial, fun data' hrun other _ => ?_⟩
      rw [runs_getEnt.mp hrun]
      exact .of_buf rfl rfl
  | setEnt key val =>
      obtain ⟨rfl, hkeeps⟩ := hfits
      exact hkeeps.setEnt_lawful hok hvalid.1
  | setEntOffset key offset =>
      refine ⟨⟨_, runs_setEntOffset.mpr rfl⟩, fun data' hrun => ?_, fun data' hrun other hne => ?_⟩
      · rw [runs_setEntOffset.mp hrun]
        exact Keeps.find_self hfits hok hvalid.1
      · rw [runs_setEntOffset.mp hrun]
        exact .of_buf (Keeps.find_other hfits hok hvalid.1 hne) rfl
  | delEnt key =>
      refine ⟨⟨_, runs_delEnt.mpr rfl⟩, fun data' hrun => ?_, fun data' hrun other hne => ?_⟩
      · rw [runs_delEnt.mp hrun]
        exact Single.delEnt_self hfits hok
      · rw [runs_delEnt.mp hrun]
        refine .of_buf (hok.delEnt_other hne) ?_
        rw [netDataDelEnt]
        split
        · rfl
        · rfl

/-- A field that was set once and is deleted. -/
theorem netData_lawful_once :
    ((netDataInit zeroHeap).netDataSetEntOffset (bytesOf "Host") 0).Lawful
      (.delEnt (bytesOf "Host")) := by
  have hkey : (bytesOf "Host").length < HTTP_HEADER_KEY_MAXLEN ∧ 0 ∉ bytesOf "Host" := by decide
  have hsetValid : (NetDataOp.setEntOffset (bytesOf "Host") 0).Valid := hkey
  have hdelValid : (NetDataOp.delEnt (bytesOf "Host")).Valid := hkey
  have hstart : (netDataInit zeroHeap).Reached := .start ⟨rfl, [], strbufInit_holds⟩
  have hone : ((netDataInit zeroHeap).netDataSetEntOffset (bytesOf "Host") 0).table.items =
      [(netDataInit zeroHeap).newSlot (bytesOf "Host") 0] := by
    rw [netDataSetEntOffset, hashAdd_items]
    rfl
  have hkeeps : (netDataInit zeroHeap).Keeps (bytesOf "Host") := .inl (by decide)
  have hset : ((netDataInit zeroHeap).netDataSetEntOffset (bytesOf "Host") 0).Reached :=
    hstart.step hsetValid hkeeps (runs_setEntOffset.mpr rfl)
  apply netData_lawful hset hdelValid
  intro x hx y hy _ _
  rw [hone, List.mem_singleton] at hx hy
  rw [hx, hy]

/-- A value that is not empty is never set; the second of two entries of a key comes
    back when the first one found is deleted; and the tenth entry of a key makes the
    first one found. -/
theorem not_netData_lawful :
    (NetDataOp.setEnt (bytesOf "A") (bytesOf "x")).Valid ∧
      ¬ (netDataInit zeroHeap).Lawful (.setEnt (bytesOf "A") (bytesOf "x")) ∧
      ((((netDataInit zeroHeap).netDataSetEntOffset (bytesOf "A") 1).netDataSetEntOffset
        (bytesOf "A") 2).netDataDelEnt (bytesOf "A")).netDataGetEntOffset (bytesOf "A") = some 1 ∧
      ((List.range 10).foldl (fun data i => data.netDataSetEntOffset (bytesOf "A") i)
        (netDataInit zeroHeap)).netDataGetEntOffset (bytesOf "A") = some 0 := by
  have hvalid : (bytesOf "A").length < HTTP_HEADER_KEY_MAXLEN ∧ 0 ∉ bytesOf "A" ∧
      0 ∉ bytesOf "x" := by decide
  refine ⟨hvalid, fun h => ?_, by decide +kernel, by decide +kernel⟩
  obtain ⟨data', hrun⟩ := h.terminates
  exact not_runs_setEnt (by decide) hrun

end

end NetMap

end HttpProxy
