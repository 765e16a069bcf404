/-
  HttpProxy.Stream.Lookup

  Lookups in the header table.  A lookup finds an entry of its key when there is
  one; which one is up to the chain of the bucket.  An entry that has just been added
  is found, unless it makes uthash expand the table and the key was there before.
-/

import HttpProxy.Core.NetData

namespace HttpProxy

open Lib

-- ============================================================================
-- Keys
-- ============================================================================

section

variable {data : NetData} {e : NetHeaderEnt} {key : Bytes} {off : Nat}

/-- A key that leaves room for the NUL is hashed as it is. -/
theorem NetHeaderEnt.hashKey_short (h : e.key.length < HTTP_HEADER_KEY_MAXLEN) :
    e.hashKey = e.key := by
  rw [hashKey, e.terminated h, List.append_nil]

theorem NetHeaderEnt.hasKey_eq : e.hasKey key = true ↔ e.hashKey = key := by
  rw [NetHeaderEnt.hasKey, decide_eq_true_eq]

/-- A name that fits the array is not that of an entry whose key fills it. -/
theorem NetHeaderEnt.hasKey_iff (h : key.length < HTTP_HEADER_KEY_MAXLEN) :
    e.hasKey key = true ↔ e.key = key := by
  rw [hasKey_eq]
  constructor
  · rintro rfl
    rw [hashKey, List.length_append] at h
    exact (hashKey_short (Nat.lt_of_le_of_lt (Nat.le_add_right _ _) h)).symm
  · rintro rfl
    exact hashKey_short h

/-- The entry of a name that fits does not depend on the memory it gets. -/
theorem NetData.newEnt_eq (h : key.length < HTTP_HEADER_KEY_MAXLEN) :
    data.newEnt key off = ⟨key, off, [], fun _ => rfl⟩ :=
  NetHeaderEnt.ext (List.take_of_length_le (Nat.le_of_lt h)) rfl (if_pos h)

theorem NetHeaderEnt.hasKey_hashv (e : NetHeaderEnt) (h : e.hasKey key = true) :
    e.hashv = (hashJen key).toNat := by
  rw [NetHeaderEnt.hashv, hasKey_eq.mp h]

-- ============================================================================
-- What is found
-- ============================================================================

theorem NetData.hashTable_items (data : NetData) : data.hashTable.items = data.table :=
  hashAddAll_items data.table

theorem NetData.hashTable_placed (data : NetData) : data.hashTable.Placed NetHeaderEnt.hashv :=
  placed_addAll data.table

theorem NetData.findStr_mem (h : data.findStr key = some e) :
    e ∈ data.table ∧ e.hasKey key = true := by
  have hmem := data.hashTable_placed.find_mem h
  rw [data.hashTable_items] at hmem
  exact hmem

theorem NetData.findStr_none_iff :
    data.findStr key = none ↔ ∀ e ∈ data.table, e.hasKey key = false := by
  have hhash : ∀ e : NetHeaderEnt, e.hasKey key = true → e.hashv = (hashJen key).toNat :=
    fun e => e.hasKey_hashv
  have hnone := data.hashTable_placed.find_none_iff hhash
  rw [data.hashTable_items] at hnone
  exact hnone

/-- The only entry with a key is found. -/
theorem NetData.findStr_one (he : e ∈ data.table) (hkey : e.hasKey key = true)
    (hone : ∀ x ∈ data.table, x.hasKey key = true → x = e) : data.findStr key = some e := by
  apply data.hashTable_placed.find_one (fun e => e.hasKey_hashv)
  · rw [data.hashTable_items]
    exact he
  · exact hkey
  · rw [data.hashTable_items]
    exact hone

/-- Lookups depend on the entries only. -/
theorem netDataGetEntOffset_table {data' : NetData} (h : data'.table = data.table) :
    netDataGetEntOffset data' key = netDataGetEntOffset data key := by
  rw [netDataGetEntOffset, netDataGetEntOffset, NetData.findStr, NetData.findStr,
    NetData.hashTable, NetData.hashTable, h]

/-- A lookup that finds something finds an entry of its key. -/
theorem netDataGetEntOffset_mem (h : netDataGetEntOffset data key = some off) :
    ∃ e ∈ data.table, e.hasKey key = true ∧ e.valOffset = off := by
  obtain ⟨e, he, rfl⟩ := Option.map_eq_some_iff.mp h
  obtain ⟨hmem, hkey⟩ := NetData.findStr_mem he
  exact ⟨e, hmem, hkey, rfl⟩

theorem netDataGetEntOffset_none_iff :
    netDataGetEntOffset data key = none ↔ ∀ e ∈ data.table, e.hasKey key = false := by
  rw [netDataGetEntOffset, Option.map_eq_none_iff, NetData.findStr_none_iff]

theorem netDataGetEnt_none_iff :
    netDataGetEnt data key = none ↔ ∀ e ∈ data.table, e.hasKey key = false := by
  rw [netDataGetEnt, Option.map_eq_none_iff, netDataGetEntOffset_none_iff]

-- ============================================================================
-- A new entry
-- ============================================================================

/-- The table is expanded when an entry with this key is added. -/
def NetData.expands (data : NetData) (key : Bytes) : Bool :=
  hashExpands NetHeaderEnt.hashv data.hashTable ⟨key, 0, [], fun _ => rfl⟩

/-- The entry with a key at the end of its chain. -/
def NetData.findLast (data : NetData) (key : Bytes) : Option NetHeaderEnt :=
  hashFindLast data.hashTable (hashJen key).toNat (·.hasKey key)

theorem NetData.findLast_mem (h : data.findLast key = some e) : e ∈ data.table := by
  have hmem := List.mem_reverse.mp (List.mem_of_find?_eq_some h)
  have hitem := (data.hashTable_placed.mem _ _).mp hmem
  rw [data.hashTable_items] at hitem
  exact hitem.1

/-- Whether the table is expanded is up to the hash key of the new entry. -/
theorem NetData.expands_hashKey (e : NetHeaderEnt) :
    data.expands e.hashKey = hashExpands NetHeaderEnt.hashv data.hashTable e := by
  have hhash : NetHeaderEnt.hashv ⟨e.hashKey, 0, [], fun _ => rfl⟩ = e.hashv := by
    rw [NetHeaderEnt.hashv, NetHeaderEnt.hashKey, List.append_nil, NetHeaderEnt.hashv]
  rw [NetData.expands, hashExpands, hashExpands, hhash]

theorem NetData.hashTable_add {data' : NetData} (htable : data'.table = data.table ++ [e]) :
    data'.hashTable = hashAdd NetHeaderEnt.hashv data.hashTable e := by
  rw [NetData.hashTable, htable, hashAddAll_append]
  rfl

/-- What a lookup finds right after an entry of its key has been added. -/
theorem NetData.findStr_add {data' : NetData} (htable : data'.table = data.table ++ [e])
    (hkey : e.hasKey key = true) :
    data'.findStr key =
      if data.expands key then (data.findLast key).or (some e) else some e := by
  have hexpands := data.expands_hashKey e
  rw [NetHeaderEnt.hasKey_eq.mp hkey] at hexpands
  rw [NetData.findStr, NetData.hashTable_add htable, hexpands]
  exact data.hashTable_placed.add_find (fun e => e.hasKey_hashv) hkey

/-- What a lookup finds right after an entry of another key has been added. -/
theorem NetData.findStr_add_other {data' : NetData} (htable : data'.table = data.table ++ [e])
    (hkey : e.hasKey key = false) :
    data'.findStr key =
      if data.expands e.hashKey then data.findLast key else data.findStr key := by
  rw [NetData.findStr, NetData.hashTable_add htable, data.expands_hashKey e]
  exact data.hashTable_placed.add_find_other (fun e => e.hasKey_hashv) hkey

/-- Something is found, at least. -/
theorem netDataGetEnt_add_ne_none {data' : NetData} (htable : data'.table = data.table ++ [e])
    (hkey : e.hasKey key = true) : netDataGetEnt data' key ≠ none := by
  rw [ne_eq, netDataGetEnt_none_iff, htable]
  intro hnone
  have hnot := hnone e (by simp)
  rw [hkey] at hnot
  exact absurd hnot (by decide)

end

-- ============================================================================
-- Fields
-- ============================================================================

section

variable {α : Type} {R : NetHeaderEnt → α → Prop} {data : NetData} {fs : List α} {key : Bytes}

/-- The field a lookup meets where the table has an entry for each of these. -/
def fieldFound (name : α → Bytes) (fs : List α) (key : Bytes) : Option α :=
  hashFind (hashAddAll (fun f => (hashJen (name f)).toNat) fs) (hashJen key).toNat
    (fun f => name f = key)

theorem fieldFound_mem {name : α → Bytes} {f : α} (h : fieldFound name fs key = some f) :
    f ∈ fs ∧ name f = key := by
  have hmem := (placed_addAll fs).find_mem h
  rw [hashAddAll_items] at hmem
  exact ⟨hmem.1, of_decide_eq_true hmem.2⟩

theorem fieldFound_none_iff {name : α → Bytes} :
    fieldFound name fs key = none ↔ ∀ f ∈ fs, name f ≠ key := by
  have hhash : ∀ f, decide (name f = key) = true → (hashJen (name f)).toNat = (hashJen key).toNat :=
    fun f hname => by rw [of_decide_eq_true hname]
  have hnone := (placed_addAll fs).find_none_iff hhash
  rw [hashAddAll_items] at hnone
  refine hnone.trans ?_
  simp only [decide_eq_false_iff_not, ne_eq]

/-- The entry of the field that is met is the one that is found. -/
theorem NetData.findStr_found {name : α → Bytes}
    (hR : ∀ e f, R e f → e.key = name f ∧ (name f).length < HTTP_HEADER_KEY_MAXLEN)
    (h : List.Forall₂ R data.table fs) :
    Option.Rel R (data.findStr key) (fieldFound name fs key) := by
  have hhash : ∀ e f, R e f → e.hashv = (hashJen (name f)).toNat := fun e f hef => by
    have hkey := hR e f hef
    rw [NetHeaderEnt.hashv, NetHeaderEnt.hashKey_short (hkey.1 ▸ hkey.2), hkey.1]
  apply (alike_addAll hhash h).find
  intro e f hef
  obtain ⟨hkey, hlt⟩ := hR e f hef
  rw [NetHeaderEnt.hasKey, NetHeaderEnt.hashKey_short (hkey ▸ hlt), hkey]

end

end HttpProxy
