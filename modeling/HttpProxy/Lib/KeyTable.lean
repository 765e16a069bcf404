/-
  HttpProxy.Lib.KeyTable

  Structures on the heap that a program keeps in a table of uthash under a key of
  theirs, one for each key: it looks for the key first and allocates a structure
  only when there is none.

  The table has the addresses of the structures, the heap what is in them; a lookup
  gives an address, and reading, writing or freeing an address that is not allocated
  is `none`.  `Holds key t ents out` says that the structures in the table are those
  of `ents`, with their addresses and in application order, and that the others that
  are allocated are those of `out`, which the program has unlinked and still points
  to:

  - `Holds.find_spec`: a lookup finds the structure that a search of the list finds.
  - `Holds.write`, `Holds.add`, `Holds.remove`: the table changes as the list does.
  - `Holds.removeAll`: a loop over the table leaves nothing.
  - `Holds.clear`, `Holds.freeOut`: the structures are unlinked all at once, and freed
    one by one.

  Each structure is at one address and each address is allocated once, so under
  `Holds` no access fails and nothing is lost.
-/

import HttpProxy.Lib.UtHash

namespace HttpProxy
namespace Lib

/-- The bytes of a 32-bit integer as they are in memory. -/
def wordBytes (n : Nat) : List UInt8 :=
  [UInt8.ofNat n, UInt8.ofNat (n / 256), UInt8.ofNat (n / 65536), UInt8.ofNat (n / 16777216)]

/-- `HASH_FCN` on such a key. -/
def hashWord (n : Nat) : Nat := (hashJen (wordBytes n)).toNat

/-- An item of the table: the address of its structure, and the key in it. -/
structure KeySlot (K : Type) where
  addr : Nat
  key : K
deriving DecidableEq

/-- The table and the heap its structures are on. -/
structure KeyTable (K V : Type) where
  table : UtHash (KeySlot K)
  heap : Nat → Option V

namespace KeyTable

section

variable {K V : Type} [DecidableEq K] (hash : K → Nat)

def slotHash (s : KeySlot K) : Nat := hash s.key

/-- No table, and nothing allocated. -/
def init : KeyTable K V := { table := hashMakeTable, heap := fun _ => none }

/-- `HASH_FIND` -/
def find (t : KeyTable K V) (k : K) : Option (KeySlot K) :=
  hashFind t.table (hash k) fun s => s.key = k

/-- Overwrite the structure at `a`. -/
def write (t : KeyTable K V) (a : Nat) (v : V) : Option (KeyTable K V) :=
  if (t.heap a).isSome then some { t with heap := Function.update t.heap a (some v) } else none

/-- `malloc` has returned `a`, the structure is filled in, and `HASH_ADD` puts it into the
    table. -/
def add (t : KeyTable K V) (a : Nat) (k : K) (v : V) : KeyTable K V where
  table := hashAdd (slotHash hash) t.table ⟨a, k⟩
  heap := Function.update t.heap a (some v)

/-- `HASH_DEL` -/
def unlink (t : KeyTable K V) (s : KeySlot K) : KeyTable K V :=
  { t with table := hashDelete (slotHash hash) t.table s }

/-- `free` -/
def free (t : KeyTable K V) (a : Nat) : Option (KeyTable K V) :=
  if (t.heap a).isSome then some { t with heap := Function.update t.heap a none } else none

/-- The loop of `HASH_ITER` over items with `HASH_DEL` and `free` in it. -/
def removeAll (t : KeyTable K V) (items : List (KeySlot K)) : Option (KeyTable K V) :=
  items.foldlM (fun t s => (t.unlink hash s).free s.addr) t

/-- `HASH_CLEAR`: the structures stay allocated. -/
def clear (t : KeyTable K V) : KeyTable K V := { t with table := hashMakeTable }

/-- The addresses `HASH_ITER` meets, and what is at them. -/
def addrs (t : KeyTable K V) : List Nat := t.table.items.map (·.addr)

def contents (t : KeyTable K V) : Option (List V) := t.addrs.mapM t.heap

end

-- ============================================================================
-- The invariant
-- ============================================================================

variable {K V : Type}

/-- The item of a structure at an address. -/
def slotOf (key : V → K) (e : Nat × V) : KeySlot K := ⟨e.1, key e.2⟩

/-- The structures of `ents` are in the table, those of `out` allocated beside it. -/
structure Holds (hash : K → Nat) (key : V → K) (t : KeyTable K V) (ents out : List (Nat × V)) :
    Prop where
  placed : t.table.Placed (slotHash hash)
  distinct : t.table.Distinct
  items : t.table.items = ents.map (slotOf key)
  heap : ∀ a v, t.heap a = some v ↔ (a, v) ∈ ents ++ out
  addrs : ((ents ++ out).map (·.1)).Nodup
  keys : (ents.map fun e => key e.2).Nodup

variable {hash : K → Nat} {key : V → K} {t : KeyTable K V} {ents out : List (Nat × V)}
  {e x : Nat × V} {a : Nat} {v : V} {k : K}

theorem holds_init : (init : KeyTable K V).Holds hash key [] [] where
  placed := placed_makeTable
  distinct := distinct_makeTable
  items := rfl
  heap a v := by simp [init]
  addrs := List.nodup_nil
  keys := List.nodup_nil

-- ============================================================================
-- Lists of structures
-- ============================================================================

section

variable [DecidableEq K]

/-- Overwrite the structure of one key in a list of structures. -/
def rewrite (key : V → K) (k : K) (f : V → V) (e : Nat × V) : Nat × V :=
  if key e.2 = k then (e.1, f e.2) else e

theorem rewrite_fst (key : V → K) (k : K) (f : V → V) (e : Nat × V) :
    (rewrite key k f e).1 = e.1 := by
  rw [rewrite]
  split
  · rfl
  · rfl

theorem rewrite_key (key : V → K) (k : K) {f : V → V} (hf : ∀ v, key (f v) = key v)
    (e : Nat × V) :
    key (rewrite key k f e).2 = key e.2 := by
  rw [rewrite]
  split
  · exact hf e.2
  · rfl

/-- The list of the structures changes alike. -/
theorem map_rewrite (k : K) (f : V → V) (ents : List (Nat × V)) :
    (ents.map (rewrite key k f)).map (·.2) =
      (ents.map (·.2)).map fun v => if key v = k then f v else v := by
  rw [List.map_map, List.map_map]
  apply List.map_congr_left
  intro e _
  show (rewrite key k f e).2 = _
  rw [rewrite]
  exact apply_ite Prod.snd _ _ _

/-- Without the structure of one key. -/
def without (key : V → K) (k : K) (ents : List (Nat × V)) : List (Nat × V) :=
  ents.filter fun e => key e.2 ≠ k

theorem mem_without : x ∈ without key k ents ↔ x ∈ ents ∧ key x.2 ≠ k := by
  rw [without, List.mem_filter, decide_eq_true_eq]

theorem map_without (k : K) (ents : List (Nat × V)) :
    (without key k ents).map (·.2) = (ents.map (·.2)).filter fun v => key v ≠ k := by
  rw [without, List.filter_map]
  rfl

end

-- ============================================================================
-- The heap
-- ============================================================================

namespace Holds

/-- A structure that is in the table or beside it can be read. -/
theorem read (h : t.Holds hash key ents out) (he : e ∈ ents ++ out) : t.heap e.1 = some e.2 :=
  (h.heap e.1 e.2).mpr he

theorem read_ent (h : t.Holds hash key ents out) (he : e ∈ ents) : t.heap e.1 = some e.2 :=
  h.read (List.mem_append_left out he)

/-- Each address has one structure. -/
theorem eq_of_addr (h : t.Holds hash key ents out) (he : e ∈ ents ++ out) (hx : x ∈ ents ++ out)
    (haddr : e.1 = x.1) : e = x :=
  List.inj_on_of_nodup_map h.addrs he hx haddr

/-- Each key has one structure. -/
theorem eq_of_key (h : t.Holds hash key ents out) (he : e ∈ ents) (hx : x ∈ ents)
    (hkey : key e.2 = key x.2) : e = x :=
  List.inj_on_of_nodup_map h.keys he hx hkey

/-- What is allocated is in the table or beside it. -/
theorem isSome_iff (h : t.Holds hash key ents out) :
    (t.heap a).isSome = true ↔ a ∈ (ents ++ out).map (·.1) := by
  rw [Option.isSome_iff_exists, List.mem_map]
  constructor
  · rintro ⟨v, hv⟩
    exact ⟨(a, v), (h.heap a v).mp hv, rfl⟩
  · rintro ⟨e, he, rfl⟩
    exact ⟨e.2, h.read he⟩

theorem mem_items (h : t.Holds hash key ents out) {s : KeySlot K} :
    s ∈ t.table.items ↔ ∃ e ∈ ents, slotOf key e = s := by
  rw [h.items, List.mem_map]

/-- The address of a structure in the table is not one beside it. -/
theorem not_mem_out (h : t.Holds hash key ents out) (he : e ∈ ents) : (e.1, v) ∉ out := by
  intro hout
  have hnodup := h.addrs
  rw [List.map_append] at hnodup
  have haddr : e.1 ∈ ents.map (·.1) := List.mem_map_of_mem he
  have haddr' : e.1 ∈ out.map (·.1) := List.mem_map_of_mem (f := (·.1)) hout
  exact List.disjoint_of_nodup_append hnodup haddr haddr'

-- ============================================================================
-- All the structures
-- ============================================================================

theorem addrs_eq (h : t.Holds hash key ents out) : t.addrs = ents.map (·.1) := by
  rw [KeyTable.addrs, h.items, List.map_map]
  rfl

/-- Reading structures one after the other. -/
theorem mapM_read (h : t.Holds hash key ents out) {l : List (Nat × V)}
    (hl : ∀ e ∈ l, e ∈ ents ++ out) : (l.map (·.1)).mapM t.heap = some (l.map (·.2)) := by
  induction l with
  | nil => rfl
  | cons e l ih =>
      have hhead := h.read (hl e List.mem_cons_self)
      have htail := ih fun x hx => hl x (List.mem_cons_of_mem e hx)
      rw [List.map_cons, List.mapM_cons, hhead, htail]
      rfl

/-- Iterating over the table meets the structures in the order of the list. -/
theorem contents (h : t.Holds hash key ents out) : t.contents = some (ents.map (·.2)) := by
  rw [KeyTable.contents, h.addrs_eq]
  exact h.mapM_read fun e he => List.mem_append_left out he

/-- The table goes, and the structures are still allocated. -/
theorem clear (h : t.Holds hash key ents out) : t.clear.Holds hash key [] (ents ++ out) where
  placed := placed_makeTable
  distinct := distinct_makeTable
  items := rfl
  heap := h.heap
  addrs := h.addrs
  keys := List.nodup_nil

/-- A structure beside the table is freed. -/
theorem freeOut (h : t.Holds hash key ents (e :: out)) :
    ∃ t', t.free e.1 = some t' ∧ t'.Holds hash key ents out := by
  have hin : e ∈ ents ++ e :: out := List.mem_append_right ents List.mem_cons_self
  have hperm : ((ents ++ e :: out).map (·.1)).Perm (e.1 :: (ents ++ out).map (·.1)) :=
    List.Perm.map Prod.fst List.perm_middle
  obtain ⟨hnot, haddrs⟩ := List.nodup_cons.mp (hperm.nodup_iff.mp h.addrs)
  rw [KeyTable.free, if_pos (by rw [h.read hin]; rfl)]
  refine ⟨_, rfl, h.placed, h.distinct, h.items, ?_, haddrs, h.keys⟩
  intro a v
  show Function.update t.heap e.1 none a = some v ↔ _
  by_cases ha : a = e.1
  · subst ha
    rw [Function.update_self]
    constructor
    · intro hnone
      exact absurd hnone (by simp)
    · intro hmem
      exact absurd (List.mem_map_of_mem (f := (·.1)) hmem) hnot
  · rw [Function.update_of_ne ha, h.heap, List.mem_append, List.mem_append, List.mem_cons]
    constructor
    · rintro (hx | rfl | hout)
      · exact .inl hx
      · exact absurd rfl ha
      · exact .inr hout
    · rintro (hx | hout)
      · exact .inl hx
      · exact .inr (.inr hout)

-- ============================================================================
-- Adding a structure
-- ============================================================================

/-- A structure with a new key, at an address that was not allocated. -/
theorem add (h : t.Holds hash key ents out) (hfree : t.heap a = none)
    (hnew : ∀ e ∈ ents, key e.2 ≠ key v) :
    (t.add hash a (key v) v).Holds hash key (ents ++ [(a, v)]) out := by
  have haddr : a ∉ (ents ++ out).map (·.1) := by
    rw [← h.isSome_iff, hfree]
    exact Bool.false_ne_true
  have hmem : (⟨a, key v⟩ : KeySlot K) ∉ t.table.items := by
    intro hin
    obtain ⟨e, he, heq⟩ := h.mem_items.mp hin
    exact hnew e he (congrArg KeySlot.key heq)
  constructor
  · exact h.placed.add
  · exact h.distinct.add h.placed hmem
  · show (hashAdd _ t.table _).items = _
    rw [hashAdd_items, h.items, List.map_append]
    rfl
  · intro b w
    show Function.update t.heap a (some v) b = some w ↔ _
    rw [List.append_assoc, List.mem_append, List.singleton_append, List.mem_cons,
      Prod.mk.injEq]
    by_cases hb : b = a
    · subst hb
      rw [Function.update_self, Option.some.injEq]
      constructor
      · rintro rfl
        exact .inr (.inl ⟨rfl, rfl⟩)
      · rintro (hin | ⟨-, rfl⟩ | hin)
        · exact absurd (List.mem_map_of_mem (f := (·.1)) (List.mem_append_left out hin)) haddr
        · rfl
        · exact absurd (List.mem_map_of_mem (f := (·.1)) (List.mem_append_right ents hin)) haddr
    · rw [Function.update_of_ne hb, h.heap, List.mem_append]
      constructor
      · rintro (hin | hin)
        · exact .inl hin
        · exact .inr (.inr hin)
      · rintro (hin | ⟨rfl, -⟩ | hin)
        · exact .inl hin
        · exact absurd rfl hb
        · exact .inr hin
  · rw [List.append_assoc, List.singleton_append]
    have hperm : ((ents ++ (a, v) :: out).map (·.1)).Perm (a :: (ents ++ out).map (·.1)) :=
      List.Perm.map Prod.fst List.perm_middle
    exact hperm.nodup_iff.mpr (List.nodup_cons.mpr ⟨haddr, h.addrs⟩)
  · rw [List.map_append]
    apply h.keys.append (List.nodup_singleton _)
    intro k hk hk'
    obtain ⟨e, he, rfl⟩ := List.mem_map.mp hk
    exact hnew e he (List.mem_singleton.mp hk')

-- ============================================================================
-- Lookups
-- ============================================================================

variable [DecidableEq K]

theorem find_none (h : t.Holds hash key ents out) (hnone : ∀ e ∈ ents, key e.2 ≠ k) :
    t.find hash k = none := by
  apply (h.placed.find_none_iff ?_).mpr
  · intro s hs
    obtain ⟨e, he, rfl⟩ := h.mem_items.mp hs
    exact decide_eq_false (hnone e he)
  · intro s hs
    rw [slotHash, of_decide_eq_true hs]

theorem find_some (h : t.Holds hash key ents out) (he : e ∈ ents) :
    t.find hash (key e.2) = some (slotOf key e) := by
  apply h.placed.find_one ?_ (h.mem_items.mpr ⟨e, he, rfl⟩) (decide_eq_true rfl)
  · intro s hs hkey
    obtain ⟨x, hx, rfl⟩ := h.mem_items.mp hs
    have heq : x = e := h.eq_of_key hx he (of_decide_eq_true hkey)
    rw [heq]
  · intro s hs
    rw [slotHash, of_decide_eq_true hs]

/-- A lookup and a search of the list find the same structure, or both nothing. -/
theorem find_spec (h : t.Holds hash key ents out) (k : K) :
    (t.find hash k = none ∧ (ents.map (·.2)).find? (fun v => key v = k) = none ∧
        ∀ e ∈ ents, key e.2 ≠ k) ∨
      ∃ e ∈ ents, key e.2 = k ∧ t.find hash k = some (slotOf key e) ∧ t.heap e.1 = some e.2 ∧
        (ents.map (·.2)).find? (fun v => key v = k) = some e.2 := by
  cases hfind : (ents.map (·.2)).find? (fun v => key v = k) with
  | none =>
      have hnone : ∀ e ∈ ents, key e.2 ≠ k := by
        intro e he hkey
        have hnot := List.find?_eq_none.mp hfind e.2 (List.mem_map_of_mem he)
        exact hnot (decide_eq_true hkey)
      exact .inl ⟨h.find_none hnone, rfl, hnone⟩
  | some v =>
      have hkey : key v = k := by simpa using List.find?_some hfind
      obtain ⟨e, he, rfl⟩ := List.mem_map.mp (List.mem_of_find?_eq_some hfind)
      subst hkey
      exact .inr ⟨e, he, rfl, h.find_some he, h.read_ent he, rfl⟩

-- ============================================================================
-- Overwriting a structure
-- ============================================================================

/-- The structure of `e` is overwritten; its key stays. -/
theorem write (h : t.Holds hash key ents out) (he : e ∈ ents) {f : V → V}
    (hf : ∀ v, key (f v) = key v) :
    ∃ t', t.write e.1 (f e.2) = some t' ∧
      t'.Holds hash key (ents.map (rewrite key (key e.2) f)) out := by
  have hread := h.read_ent he
  have hin : e ∈ ents ++ out := List.mem_append_left out he
  rw [KeyTable.write, if_pos (by rw [hread]; rfl)]
  refine ⟨_, rfl, h.placed, h.distinct, ?_, ?_, ?_, ?_⟩
  · rw [List.map_map, h.items]
    apply List.map_congr_left
    intro x _
    show (⟨x.1, key x.2⟩ : KeySlot K) = ⟨_, _⟩
    rw [rewrite_fst, rewrite_key key _ hf]
  · intro a v
    show Function.update t.heap e.1 (some (f e.2)) a = some v ↔ _
    rw [List.mem_append, List.mem_map]
    by_cases ha : a = e.1
    · subst ha
      rw [Function.update_self, Option.some.injEq]
      constructor
      · rintro rfl
        exact .inl ⟨e, he, by rw [rewrite, if_pos rfl]⟩
      · rintro (⟨x, hx, hxa⟩ | hout)
        · have haddr : x.1 = e.1 := by rw [← rewrite_fst key (key e.2) f x, hxa]
          obtain rfl := h.eq_of_addr (List.mem_append_left out hx) hin haddr
          rw [rewrite, if_pos rfl] at hxa
          exact (Prod.mk.inj hxa).2
        · exact absurd hout (h.not_mem_out he)
    · rw [Function.update_of_ne ha, h.heap, List.mem_append]
      have hother : ∀ x ∈ ents, x.1 = a → rewrite key (key e.2) f x = x := by
        intro x hx hxa
        rw [rewrite, if_neg]
        intro hkey
        rw [h.eq_of_key hx he hkey] at hxa
        exact ha hxa.symm
      constructor
      · rintro (hx | hout)
        · exact .inl ⟨(a, v), hx, hother _ hx rfl⟩
        · exact .inr hout
      · rintro (⟨x, hx, hxa⟩ | hout)
        · have haddr : x.1 = a := by rw [← rewrite_fst key (key e.2) f x, hxa]
          rw [hother x hx haddr] at hxa
          exact .inl (hxa ▸ hx)
        · exact .inr hout
  · have haddrs : (ents.map (rewrite key (key e.2) f)).map (·.1) = ents.map (·.1) := by
      rw [List.map_map]
      apply List.map_congr_left
      intro x _
      exact rewrite_fst key _ f x
    have hnodup := h.addrs
    rw [List.map_append] at hnodup ⊢
    rw [haddrs]
    exact hnodup
  · have hkeys : (ents.map (rewrite key (key e.2) f)).map (fun x => key x.2) =
        ents.map fun x => key x.2 := by
      rw [List.map_map]
      apply List.map_congr_left
      intro x _
      exact rewrite_key key _ hf x
    rw [hkeys]
    exact h.keys

-- ============================================================================
-- Removing a structure
-- ============================================================================

/-- The structure of `e` is unlinked and freed. -/
theorem remove (h : t.Holds hash key ents out) (he : e ∈ ents) :
    ∃ t', (t.unlink hash (slotOf key e)).free e.1 = some t' ∧
      t'.Holds hash key (without key (key e.2) ents) out := by
  have hread := h.read_ent he
  have hin : e ∈ ents ++ out := List.mem_append_left out he
  have hsub : (without key (key e.2) ents ++ out).Sublist (ents ++ out) :=
    List.filter_sublist.append_right out
  have hsome : ((t.unlink hash (slotOf key e)).heap e.1).isSome = true := by
    show (t.heap e.1).isSome = true
    rw [hread]
    rfl
  rw [KeyTable.free, if_pos hsome]
  refine ⟨_, rfl, h.placed.delete h.distinct, h.distinct.delete, ?_, ?_, ?_, ?_⟩
  · show (hashDelete _ t.table _).items = _
    have hinj : (ents.map (slotOf key)).Nodup := h.items ▸ h.distinct.items
    rw [hashDelete_items, h.items, List.Nodup.erase_eq_filter hinj, List.filter_map]
    congr 1
    apply List.filter_congr
    intro x hx
    have hiff : slotOf key x = slotOf key e ↔ key x.2 = key e.2 := by
      constructor
      · exact fun heq => congrArg KeySlot.key heq
      · exact fun hkey => congrArg (slotOf key) (h.eq_of_key hx he hkey)
    simp [← hiff, bne, beq_eq_decide]
  · intro a v
    show Function.update t.heap e.1 none a = some v ↔ _
    rw [List.mem_append, mem_without]
    by_cases ha : a = e.1
    · subst ha
      rw [Function.update_self]
      constructor
      · intro hnone
        exact absurd hnone (by simp)
      · rintro (⟨hx, hne⟩ | hout)
        · have heq := h.eq_of_addr (List.mem_append_left out hx) hin rfl
          exact absurd (congrArg (fun y => key y.2) heq) hne
        · exact absurd hout (h.not_mem_out he)
    · rw [Function.update_of_ne ha]
      show t.heap a = some v ↔ _
      rw [h.heap, List.mem_append]
      constructor
      · rintro (hx | hout)
        · refine .inl ⟨hx, fun hkey => ha ?_⟩
          exact congrArg Prod.fst (h.eq_of_key hx he hkey)
        · exact .inr hout
      · rintro (⟨hx, -⟩ | hout)
        · exact .inl hx
        · exact .inr hout
  · exact (hsub.map _).nodup h.addrs
  · exact (List.filter_sublist.map _).nodup h.keys

/-- The structures are removed in the order of the list. -/
theorem removeAll (h : t.Holds hash key ents out) :
    ∃ t', t.removeAll hash t.table.items = some t' ∧ t'.Holds hash key [] out := by
  rw [h.items]
  induction ents generalizing t with
  | nil => exact ⟨t, rfl, h⟩
  | cons e ents ih =>
      obtain ⟨t', hremove, ht'⟩ := h.remove List.mem_cons_self
      have hrest : without key (key e.2) (e :: ents) = ents := by
        have hnot := (List.nodup_cons.mp h.keys).1
        rw [without, List.filter_cons_of_neg (by simp), List.filter_eq_self]
        intro x hx
        rw [decide_eq_true_eq]
        intro hkey
        exact hnot (List.mem_map.mpr ⟨x, hx, hkey⟩)
      rw [hrest] at ht'
      obtain ⟨t'', hall, ht''⟩ := ih ht'
      refine ⟨t'', ?_, ht''⟩
      rw [KeyTable.removeAll, List.map_cons, List.foldlM_cons]
      show ((t.unlink hash (slotOf key e)).free e.1).bind _ = _
      rw [hremove]
      exact hall

end Holds
end KeyTable
end Lib
end HttpProxy
