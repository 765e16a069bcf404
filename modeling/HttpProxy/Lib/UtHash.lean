/-
  HttpProxy.Lib.UtHash

  The hash table of uthash/uthash.h: a list of the items in application order,
  and one chain of items for each bucket.

  An item is added in front of its chain, so a lookup meets the newest of several
  items with one key first, as long as the table is not expanded: the expansion
  moves the items of each chain one by one, front first, in front of the new
  chains, and so turns their order round.

  `hashv` is the hash an item was added with.  `Placed` says that each item is in
  the chain of its bucket and nowhere else, `Distinct` that no item is there twice.
  Under `Placed` a lookup finds an item of the key exactly when there is one; which
  one it finds is known when there is only one, and for an item that has just been
  added (`Placed.add_find`).

  `Alike` relates two tables of the same shape: tables of items that correspond to
  each other give lookups that do.
-/

import Mathlib.Data.List.Forall2
import Mathlib.Data.List.Induction
import Mathlib.Data.List.Nodup
import Mathlib.Logic.Function.Basic

namespace HttpProxy
namespace Lib

-- ============================================================================
-- HASH_JEN
-- ============================================================================

/-- A third of `HASH_JEN_MIX`. -/
def jenMixWith (s₁ s₂ s₃ : UInt32) (x : UInt32 × UInt32 × UInt32) : UInt32 × UInt32 × UInt32 :=
  let (a, b, c) := x
  let a := (a - b - c) ^^^ (c >>> s₁)
  let b := (b - c - a) ^^^ (a <<< s₂)
  let c := (c - a - b) ^^^ (b >>> s₃)
  (a, b, c)

/-- `HASH_JEN_MIX` -/
def jenMix (x : UInt32 × UInt32 × UInt32) : UInt32 × UInt32 × UInt32 :=
  jenMixWith 3 10 15 (jenMixWith 12 16 5 (jenMixWith 13 8 13 x))

/-- Four bytes as a little-endian word. -/
def leWord (a b c d : UInt8) : UInt32 :=
  a.toUInt32 + (b.toUInt32 <<< 8) + (c.toUInt32 <<< 16) + (d.toUInt32 <<< 24)

/-- The loop of `HASH_JEN` over blocks of twelve bytes, and the bytes that are left. -/
def jenBlocks : List UInt8 → UInt32 × UInt32 × UInt32 → (UInt32 × UInt32 × UInt32) × List UInt8
  | k₀ :: k₁ :: k₂ :: k₃ :: k₄ :: k₅ :: k₆ :: k₇ :: k₈ :: k₉ :: k₁₀ :: k₁₁ :: key, (i, j, hashv) =>
      jenBlocks key (jenMix (i + leWord k₀ k₁ k₂ k₃, j + leWord k₄ k₅ k₆ k₇,
        hashv + leWord k₈ k₉ k₁₀ k₁₁))
  | key, x => (x, key)

/-- `HASH_JEN`.  The last bytes of the key are added as far as they go; those of
    `hashv` leave its lowest byte to the length. -/
def hashJen (key : List UInt8) : UInt32 :=
  let ((i, j, hashv), rest) := jenBlocks key (0x9e3779b9, 0x9e3779b9, 0xfeedbeef)
  let k (n : Nat) : UInt8 := rest.getD n 0
  (jenMix (i + leWord (k 0) (k 1) (k 2) (k 3), j + leWord (k 4) (k 5) (k 6) (k 7),
    hashv + UInt32.ofNat key.length + leWord 0 (k 8) (k 9) (k 10))).2.2

-- ============================================================================
-- The table
-- ============================================================================

/-- `UT_hash_bucket`: the items from `hh_head` on; `count` is their number. -/
structure UtBucket (α : Type) where
  chain : List α
  expandMult : Nat

/-- `UT_hash_table` with the items in application order. -/
structure UtHash (α : Type) where
  items : List α
  numBuckets : Nat
  buckets : Nat → UtBucket α
  ineffExpands : Nat
  noexpand : Bool

def HASH_INITIAL_NUM_BUCKETS : Nat := 32
def HASH_BKT_CAPACITY_THRESH : Nat := 10

/-- No item: the head is NULL, and the next item makes a new table. -/
def hashMakeTable {α : Type} : UtHash α :=
  { items := [], numBuckets := HASH_INITIAL_NUM_BUCKETS, buckets := fun _ => ⟨[], 0⟩,
    ineffExpands := 0, noexpand := false }

section

variable {α : Type} (hashv : α → Nat)

/-- `HASH_FIND`: the first item with the key in the chain of its bucket. -/
def hashFind (tbl : UtHash α) (hv : Nat) (p : α → Bool) : Option α :=
  (tbl.buckets (hv % tbl.numBuckets)).chain.find? p

/-- One item moved to its new bucket by `HASH_EXPAND_BUCKETS`; the second component
    counts the items beyond the ideal length of a chain. -/
def hashMove (numBuckets ideal : Nat) (x : (Nat → UtBucket α) × Nat) (e : α) :
    (Nat → UtBucket α) × Nat :=
  let i := hashv e % numBuckets
  let b := x.1 i
  let count := b.chain.length + 1
  if ideal < count then
    (Function.update x.1 i { chain := e :: b.chain, expandMult := count / ideal }, x.2 + 1)
  else (Function.update x.1 i { b with chain := e :: b.chain }, x.2)

/-- The items in the order in which `HASH_EXPAND_BUCKETS` meets them. -/
def UtHash.walk (tbl : UtHash α) : List α :=
  (List.range tbl.numBuckets).flatMap fun i => (tbl.buckets i).chain

/-- `HASH_EXPAND_BUCKETS` -/
def hashExpandBuckets (tbl : UtHash α) : UtHash α :=
  let n := tbl.numBuckets * 2
  let cnt := tbl.items.length
  let ideal := cnt / n + if cnt % n = 0 then 0 else 1
  let moved := tbl.walk.foldl (hashMove hashv n ideal) (fun _ => ⟨[], 0⟩, 0)
  let ineff := if cnt / 2 < moved.2 then tbl.ineffExpands + 1 else 0
  { items := tbl.items, numBuckets := n, buckets := moved.1, ineffExpands := ineff,
    noexpand := tbl.noexpand || decide (1 < ineff) }

/-- Adding the item makes `HASH_ADD_TO_BKT` expand the table. -/
def hashExpands (tbl : UtHash α) (e : α) : Bool :=
  let b := tbl.buckets (hashv e % tbl.numBuckets)
  (b.expandMult + 1) * HASH_BKT_CAPACITY_THRESH ≤ b.chain.length + 1 && !tbl.noexpand

/-- The item at the end of the application order and in front of its chain. -/
def hashLink (tbl : UtHash α) (e : α) : UtHash α :=
  let i := hashv e % tbl.numBuckets
  let b := tbl.buckets i
  { tbl with
    items := tbl.items ++ [e]
    buckets := Function.update tbl.buckets i { b with chain := e :: b.chain } }

/-- `HASH_ADD` -/
def hashAdd (tbl : UtHash α) (e : α) : UtHash α :=
  if hashExpands hashv tbl e then hashExpandBuckets hashv (hashLink hashv tbl e)
  else hashLink hashv tbl e

/-- A table the items of a list are added to one after the other. -/
def hashAddAll (es : List α) : UtHash α := es.foldl (hashAdd hashv) hashMakeTable

/-- The item with the key at the end of its chain. -/
def hashFindLast (tbl : UtHash α) (hv : Nat) (p : α → Bool) : Option α :=
  (tbl.buckets (hv % tbl.numBuckets)).chain.reverse.find? p

/-- `HASH_DELETE`: the table goes with its only item. -/
def hashDelete [DecidableEq α] (tbl : UtHash α) (e : α) : UtHash α :=
  if tbl.items = [e] then hashMakeTable
  else
    let i := hashv e % tbl.numBuckets
    let b := tbl.buckets i
    { tbl with
      items := tbl.items.erase e
      buckets := Function.update tbl.buckets i { b with chain := b.chain.erase e } }

-- ============================================================================
-- Invariants
-- ============================================================================

/-- Each item is in the chain of its bucket, and only there. -/
structure UtHash.Placed (tbl : UtHash α) : Prop where
  pos : 0 < tbl.numBuckets
  mem : ∀ i e, e ∈ (tbl.buckets i).chain ↔ e ∈ tbl.items ∧ hashv e % tbl.numBuckets = i

/-- No item is in the table twice. -/
structure UtHash.Distinct (tbl : UtHash α) : Prop where
  items : tbl.items.Nodup
  chain : ∀ i, (tbl.buckets i).chain.Nodup

variable {hashv} {tbl : UtHash α} {e : α} {hv : Nat} {p : α → Bool}

theorem placed_makeTable : (hashMakeTable : UtHash α).Placed hashv where
  pos := show 0 < HASH_INITIAL_NUM_BUCKETS by decide
  mem := by simp [hashMakeTable]

theorem distinct_makeTable : (hashMakeTable : UtHash α).Distinct where
  items := List.nodup_nil
  chain _ := List.nodup_nil

-- ============================================================================
-- Lookups
-- ============================================================================

theorem UtHash.Placed.find_mem (h : tbl.Placed hashv) (hfind : hashFind tbl hv p = some e) :
    e ∈ tbl.items ∧ p e = true :=
  ⟨((h.mem _ _).mp (List.mem_of_find?_eq_some hfind)).1, List.find?_some hfind⟩

/-- Items with the key are in the chain that is searched. -/
theorem UtHash.Placed.find_none_iff (h : tbl.Placed hashv) (hp : ∀ e, p e = true → hashv e = hv) :
    hashFind tbl hv p = none ↔ ∀ e ∈ tbl.items, p e = false := by
  rw [hashFind, List.find?_eq_none]
  constructor
  · intro hnone e he
    by_contra hkey
    rw [Bool.not_eq_false] at hkey
    refine hnone e ((h.mem _ _).mpr ⟨he, ?_⟩) hkey
    rw [hp e hkey]
  · intro hall e he hkey
    have hmem := ((h.mem _ _).mp he).1
    rw [hall e hmem] at hkey
    exact absurd hkey Bool.false_ne_true

/-- The only item with the key is found. -/
theorem UtHash.Placed.find_one (h : tbl.Placed hashv) (hp : ∀ e, p e = true → hashv e = hv)
    (he : e ∈ tbl.items) (hkey : p e = true)
    (hone : ∀ x ∈ tbl.items, p x = true → x = e) : hashFind tbl hv p = some e := by
  cases hfind : hashFind tbl hv p with
  | none =>
      have hnot := (h.find_none_iff hp).mp hfind e he
      rw [hkey] at hnot
      exact absurd hnot.symm Bool.false_ne_true
  | some x =>
      obtain ⟨hx, hxkey⟩ := h.find_mem hfind
      rw [hone x hx hxkey]

/-- Two tables with the same items with a key, of which there is at most one. -/
theorem UtHash.Placed.find_congr {tbl' : UtHash α} (h : tbl.Placed hashv) (h' : tbl'.Placed hashv)
    (hp : ∀ e, p e = true → hashv e = hv)
    (hsame : ∀ e, p e = true → (e ∈ tbl'.items ↔ e ∈ tbl.items))
    (hone : ∀ x ∈ tbl.items, ∀ y ∈ tbl.items, p x = true → p y = true → x = y) :
    hashFind tbl' hv p = hashFind tbl hv p := by
  cases hfind : hashFind tbl hv p with
  | none =>
      rw [h'.find_none_iff hp]
      intro e he
      by_contra hkey
      rw [Bool.not_eq_false] at hkey
      have hnot := (h.find_none_iff hp).mp hfind e ((hsame e hkey).mp he)
      rw [hkey] at hnot
      exact absurd hnot.symm Bool.false_ne_true
  | some e =>
      obtain ⟨he, hkey⟩ := h.find_mem hfind
      apply h'.find_one hp ((hsame e hkey).mpr he) hkey
      intro x hx hxkey
      exact hone x ((hsame x hxkey).mp hx) e he hxkey hkey

-- ============================================================================
-- Adding
-- ============================================================================

@[simp] theorem hashLink_items : (hashLink hashv tbl e).items = tbl.items ++ [e] := rfl

@[simp] theorem hashAdd_items : (hashAdd hashv tbl e).items = tbl.items ++ [e] := by
  rw [hashAdd]
  split
  · rfl
  · rfl

theorem hashLink_chain (i : Nat) :
    ((hashLink hashv tbl e).buckets i).chain =
      if hashv e % tbl.numBuckets = i then e :: (tbl.buckets i).chain
      else (tbl.buckets i).chain := by
  by_cases hi : hashv e % tbl.numBuckets = i
  · subst hi
    simp [hashLink]
  · rw [if_neg hi]
    simp [hashLink, Function.update_of_ne (Ne.symm hi)]

theorem UtHash.Placed.link (h : tbl.Placed hashv) : (hashLink hashv tbl e).Placed hashv where
  pos := h.pos
  mem i x := by
    rw [hashLink_chain, hashLink_items, List.mem_append, List.mem_singleton]
    show _ ↔ _ ∧ hashv x % tbl.numBuckets = i
    split
    · rename_i hi
      rw [List.mem_cons, h.mem]
      constructor
      · rintro (rfl | ⟨hx, hxi⟩)
        · exact ⟨.inr rfl, hi⟩
        · exact ⟨.inl hx, hxi⟩
      · rintro ⟨hx | rfl, hxi⟩
        · exact .inr ⟨hx, hxi⟩
        · exact .inl rfl
    · rename_i hi
      rw [h.mem]
      constructor
      · rintro ⟨hx, hxi⟩
        exact ⟨.inl hx, hxi⟩
      · rintro ⟨hx | rfl, hxi⟩
        · exact ⟨hx, hxi⟩
        · exact absurd hxi hi

theorem UtHash.Distinct.link (h : tbl.Distinct) (hplaced : tbl.Placed hashv)
    (hnew : e ∉ tbl.items) : (hashLink hashv tbl e).Distinct where
  items := by
    rw [hashLink_items]
    exact h.items.append (List.nodup_singleton e) (by simpa using hnew)
  chain i := by
    rw [hashLink_chain]
    split
    · refine List.nodup_cons.mpr ⟨fun hmem => hnew ?_, h.chain i⟩
      exact ((hplaced.mem _ _).mp hmem).1
    · exact h.chain i

-- ============================================================================
-- Expanding
-- ============================================================================

theorem hashMove_chain (n ideal : Nat) (x : (Nat → UtBucket α) × Nat) (e : α) (i : Nat) :
    ((hashMove hashv n ideal x e).1 i).chain =
      if hashv e % n = i then e :: (x.1 i).chain else (x.1 i).chain := by
  by_cases hi : hashv e % n = i
  · subst hi
    rw [if_pos rfl, hashMove]
    split
    · simp
    · simp
  · rw [if_neg hi, hashMove]
    split
    · simp [Function.update_of_ne (Ne.symm hi)]
    · simp [Function.update_of_ne (Ne.symm hi)]

/-- Moving the items of a list turns their order round. -/
theorem hashMove_foldl (n ideal : Nat) (l : List α) (x : (Nat → UtBucket α) × Nat) (i : Nat) :
    ((l.foldl (hashMove hashv n ideal) x).1 i).chain =
      (l.filter fun e => hashv e % n = i).reverse ++ (x.1 i).chain := by
  induction l generalizing x with
  | nil => rfl
  | cons e l ih =>
      rw [List.foldl_cons, ih, hashMove_chain]
      by_cases hi : hashv e % n = i
      · rw [if_pos hi, List.filter_cons_of_pos (by simpa using hi), List.reverse_cons,
          List.append_assoc, List.singleton_append]
      · rw [if_neg hi, List.filter_cons_of_neg (by simpa using hi)]

theorem hashExpandBuckets_chain (i : Nat) :
    ((hashExpandBuckets hashv tbl).buckets i).chain =
      (tbl.walk.filter fun e => hashv e % (tbl.numBuckets * 2) = i).reverse := by
  show ((tbl.walk.foldl (hashMove hashv _ _) _).1 i).chain = _
  rw [hashMove_foldl, List.append_nil]

theorem UtHash.Placed.mem_walk (h : tbl.Placed hashv) : e ∈ tbl.walk ↔ e ∈ tbl.items := by
  rw [walk, List.mem_flatMap]
  constructor
  · rintro ⟨i, -, he⟩
    exact ((h.mem _ _).mp he).1
  · intro he
    exact ⟨hashv e % tbl.numBuckets, List.mem_range.mpr (Nat.mod_lt _ h.pos),
      (h.mem _ _).mpr ⟨he, rfl⟩⟩

theorem UtHash.Placed.expand (h : tbl.Placed hashv) :
    (hashExpandBuckets hashv tbl).Placed hashv where
  pos := Nat.mul_pos h.pos Nat.two_pos
  mem i x := by
    rw [hashExpandBuckets_chain, List.mem_reverse, List.mem_filter, h.mem_walk, decide_eq_true_eq]
    rfl

theorem UtHash.Distinct.walk (h : tbl.Distinct) (hplaced : tbl.Placed hashv) :
    tbl.walk.Nodup := by
  rw [UtHash.walk, List.nodup_flatMap]
  refine ⟨fun i _ => h.chain i, ?_⟩
  refine List.Pairwise.imp ?_ List.nodup_range
  intro i j hij x hx hy
  exact hij (((hplaced.mem _ _).mp hx).2.symm.trans ((hplaced.mem _ _).mp hy).2)

theorem UtHash.Distinct.expand (h : tbl.Distinct) (hplaced : tbl.Placed hashv) :
    (hashExpandBuckets hashv tbl).Distinct where
  items := h.items
  chain i := by
    rw [hashExpandBuckets_chain, List.nodup_reverse]
    exact (h.walk hplaced).filter _

theorem UtHash.Placed.add (h : tbl.Placed hashv) : (hashAdd hashv tbl e).Placed hashv := by
  rw [hashAdd]
  split
  · exact h.link.expand
  · exact h.link

theorem UtHash.Distinct.add (h : tbl.Distinct) (hplaced : tbl.Placed hashv)
    (hnew : e ∉ tbl.items) : (hashAdd hashv tbl e).Distinct := by
  rw [hashAdd]
  split
  · exact (h.link hplaced hnew).expand hplaced.link
  · exact h.link hplaced hnew

/-- Without an expansion the new item is found in front of the others. -/
theorem hashAdd_find (hstay : hashExpands hashv tbl e = false) (hkey : p e = true → hashv e = hv) :
    hashFind (hashAdd hashv tbl e) hv p = if p e then some e else hashFind tbl hv p := by
  rw [hashAdd, if_neg (by rw [hstay]; exact Bool.false_ne_true), hashFind, hashLink_chain]
  show (if hashv e % tbl.numBuckets = hv % tbl.numBuckets then _ else _ : List α).find? p = _
  by_cases hp : p e = true
  · rw [if_pos (by rw [hkey hp]), if_pos hp, List.find?_cons_of_pos hp]
  · rw [if_neg hp]
    split
    · rename_i hi
      rw [List.find?_cons_of_neg hp]
      rfl
    · rfl

/-- Searching in the items of a hash only changes nothing for a key of that hash. -/
theorem find?_filter_of_imp {q : α → Bool} (hpq : ∀ e, p e = true → q e = true) (l : List α) :
    (l.filter q).find? p = l.find? p := by
  rw [List.find?_filter]
  congr 1
  funext e
  cases hp : p e with
  | false => simp
  | true => simp [hpq e hp]

/-- Where one index alone has items with the key, all are in its list. -/
theorem filter_flatMap_range {f : Nat → List α} {n i : Nat} (hi : i < n)
    (hnone : ∀ j, j ≠ i → (f j).filter p = []) :
    ((List.range n).flatMap f).filter p = (f i).filter p := by
  induction n with
  | zero => exact absurd hi (Nat.not_lt_zero i)
  | succ n ih =>
      rw [List.range_succ, List.flatMap_append, List.filter_append, List.flatMap_cons,
        List.flatMap_nil, List.append_nil]
      by_cases hn : n = i
      · have hbelow : ((List.range n).flatMap f).filter p = [] := by
          rw [List.filter_flatMap, List.flatMap_eq_nil_iff]
          intro j hj
          have hlt := List.mem_range.mp hj
          exact hnone j (by omega)
        rw [hbelow, List.nil_append, hn]
      · rw [ih (by omega), hnone n hn, List.append_nil]

/-- The items with a key are met in the order of their chain. -/
theorem UtHash.Placed.walk_filter (h : tbl.Placed hashv) (hp : ∀ e, p e = true → hashv e = hv) :
    tbl.walk.filter p = (tbl.buckets (hv % tbl.numBuckets)).chain.filter p := by
  apply filter_flatMap_range (Nat.mod_lt hv h.pos)
  intro j hj
  rw [List.filter_eq_nil_iff]
  intro e he hkey
  have hbucket := ((h.mem _ _).mp he).2
  rw [hp e hkey] at hbucket
  exact hj hbucket.symm

/-- The expansion turns the items of a key round. -/
theorem UtHash.Placed.expand_find (h : tbl.Placed hashv) (hp : ∀ e, p e = true → hashv e = hv) :
    hashFind (hashExpandBuckets hashv tbl) hv p = hashFindLast tbl hv p := by
  have hnum : (hashExpandBuckets hashv tbl).numBuckets = tbl.numBuckets * 2 := rfl
  rw [hashFind, hnum, hashExpandBuckets_chain, ← List.filter_reverse,
    find?_filter_of_imp (fun e hkey => by simp [hp e hkey]), hashFindLast, ← List.head?_filter,
    ← List.head?_filter, List.filter_reverse, List.filter_reverse, h.walk_filter hp]

/-- A new item is found, unless the table is expanded and has an item with its key: then
    that at the end of the chain is. -/
theorem UtHash.Placed.add_find (h : tbl.Placed hashv) (hp : ∀ e, p e = true → hashv e = hv)
    (hkey : p e = true) :
    hashFind (hashAdd hashv tbl e) hv p =
      if hashExpands hashv tbl e then (hashFindLast tbl hv p).or (some e) else some e := by
  cases hexpand : hashExpands hashv tbl e with
  | false =>
      rw [hashAdd_find hexpand (hp e), if_pos hkey]
      rfl
  | true =>
      have hchain : ((hashLink hashv tbl e).buckets (hv % tbl.numBuckets)).chain =
          e :: (tbl.buckets (hv % tbl.numBuckets)).chain := by
        rw [hashLink_chain, if_pos (by rw [hp e hkey])]
      rw [hashAdd, if_pos hexpand, h.link.expand_find hp, hashFindLast]
      show ((hashLink hashv tbl e).buckets (hv % tbl.numBuckets)).chain.reverse.find? p = _
      rw [hchain, List.reverse_cons, List.find?_append, List.find?_cons_of_pos hkey]
      rfl

/-- A new item with another key is not met, but it may turn the items with the key round. -/
theorem UtHash.Placed.add_find_other (h : tbl.Placed hashv)
    (hp : ∀ e, p e = true → hashv e = hv) (hkey : p e = false) :
    hashFind (hashAdd hashv tbl e) hv p =
      if hashExpands hashv tbl e then hashFindLast tbl hv p else hashFind tbl hv p := by
  have hnot : ¬ p e = true := by
    rw [hkey]
    exact Bool.false_ne_true
  cases hexpand : hashExpands hashv tbl e with
  | false =>
      rw [hashAdd_find hexpand (hp e), if_neg hnot]
      rfl
  | true =>
      rw [hashAdd, if_pos hexpand, h.link.expand_find hp, hashFindLast, if_pos rfl]
      show ((hashLink hashv tbl e).buckets (hv % tbl.numBuckets)).chain.reverse.find? p = _
      rw [hashLink_chain]
      split
      · rw [List.reverse_cons, List.find?_append, List.find?_cons_of_neg hnot, List.find?_nil,
          Option.or_none]
        rfl
      · rfl

-- ============================================================================
-- Tables of a list
-- ============================================================================

theorem hashAddAll_append (es : List α) (e : α) :
    hashAddAll hashv (es ++ [e]) = hashAdd hashv (hashAddAll hashv es) e := by
  rw [hashAddAll, List.foldl_append]
  rfl

theorem hashAddAll_spec (es : List α) :
    (hashAddAll hashv es).items = es ∧ (hashAddAll hashv es).Placed hashv := by
  induction es using List.reverseRecOn with
  | nil => exact ⟨rfl, placed_makeTable⟩
  | append_singleton es e ih =>
      rw [hashAddAll_append, hashAdd_items, ih.1]
      exact ⟨rfl, ih.2.add⟩

@[simp] theorem hashAddAll_items (es : List α) : (hashAddAll hashv es).items = es :=
  (hashAddAll_spec es).1

theorem placed_addAll (es : List α) : (hashAddAll hashv es).Placed hashv :=
  (hashAddAll_spec es).2

-- ============================================================================
-- Tables of the same shape
-- ============================================================================

section

variable {β : Type} {hashv' : β → Nat} {R : α → β → Prop}

/-- Two buckets whose items correspond to each other. -/
structure UtBucket.Alike (R : α → β → Prop) (b : UtBucket α) (b' : UtBucket β) : Prop where
  chain : List.Forall₂ R b.chain b'.chain
  expandMult : b.expandMult = b'.expandMult

/-- Two tables of the same shape whose items correspond to each other. -/
structure UtHash.Alike (R : α → β → Prop) (tbl : UtHash α) (tbl' : UtHash β) : Prop where
  items : List.Forall₂ R tbl.items tbl'.items
  numBuckets : tbl.numBuckets = tbl'.numBuckets
  bucket : ∀ i, (tbl.buckets i).Alike R (tbl'.buckets i)
  ineffExpands : tbl.ineffExpands = tbl'.ineffExpands
  noexpand : tbl.noexpand = tbl'.noexpand

variable {tbl' : UtHash β} {e' : β} {f : Nat → UtBucket α} {f' : Nat → UtBucket β}

theorem alike_makeTable : (hashMakeTable : UtHash α).Alike R (hashMakeTable : UtHash β) where
  items := .nil
  numBuckets := rfl
  bucket _ := ⟨.nil, rfl⟩
  ineffExpands := rfl
  noexpand := rfl

theorem UtBucket.Alike.update (h : ∀ i, (f i).Alike R (f' i)) (k : Nat) {b : UtBucket α}
    {b' : UtBucket β} (hb : b.Alike R b') (i : Nat) :
    (Function.update f k b i).Alike R (Function.update f' k b' i) := by
  by_cases hi : i = k
  · rw [hi, Function.update_self, Function.update_self]
    exact hb
  · rw [Function.update_of_ne hi, Function.update_of_ne hi]
    exact h i

/-- Buckets in the course of an expansion that correspond to each other. -/
def MovedAlike (R : α → β → Prop) (x : (Nat → UtBucket α) × Nat) (x' : (Nat → UtBucket β) × Nat) :
    Prop :=
  (∀ i, (x.1 i).Alike R (x'.1 i)) ∧ x.2 = x'.2

/-- An item moved on both sides. -/
theorem hashMove_alike {x : (Nat → UtBucket α) × Nat} {x' : (Nat → UtBucket β) × Nat}
    (hhash : hashv e = hashv' e') (he : R e e') (n ideal : Nat) (h : MovedAlike R x x') :
    MovedAlike R (hashMove hashv n ideal x e) (hashMove hashv' n ideal x' e') := by
  obtain ⟨hbuckets, hcount⟩ := h
  have hb := hbuckets (hashv' e' % n)
  simp only [hashMove, hhash, hb.chain.length_eq, hcount]
  split
  · exact ⟨UtBucket.Alike.update hbuckets _ ⟨.cons he hb.chain, rfl⟩, rfl⟩
  · exact ⟨UtBucket.Alike.update hbuckets _ ⟨.cons he hb.chain, hb.expandMult⟩, rfl⟩

theorem UtHash.Alike.walk (h : tbl.Alike R tbl') : List.Forall₂ R tbl.walk tbl'.walk := by
  rw [UtHash.walk, UtHash.walk, h.numBuckets]
  refine List.rel_flatMap (R := Eq) ?_ ?_
  · exact List.forall₂_same.mpr fun _ _ => rfl
  · rintro i _ rfl
    exact (h.bucket i).chain

variable (hR : ∀ a b, R a b → hashv a = hashv' b)

include hR

theorem UtHash.Alike.expand (h : tbl.Alike R tbl') :
    (hashExpandBuckets hashv tbl).Alike R (hashExpandBuckets hashv' tbl') := by
  have hmoved (n ideal : Nat) :
      MovedAlike R (tbl.walk.foldl (hashMove hashv n ideal) (fun _ => ⟨[], 0⟩, 0))
        (tbl'.walk.foldl (hashMove hashv' n ideal) (fun _ => ⟨[], 0⟩, 0)) := by
    refine List.rel_foldl (P := MovedAlike R) ?_ ⟨fun _ => ⟨.nil, rfl⟩, rfl⟩ h.walk
    intro x x' hx e e' he
    exact hashMove_alike (hR e e' he) he n ideal hx
  unfold hashExpandBuckets
  simp only [← h.numBuckets, ← h.items.length_eq, ← h.ineffExpands, ← h.noexpand, ← (hmoved _ _).2]
  exact ⟨h.items, rfl, (hmoved _ _).1, rfl, rfl⟩

theorem UtHash.Alike.link (h : tbl.Alike R tbl') (he : R e e') :
    (hashLink hashv tbl e).Alike R (hashLink hashv' tbl' e') := by
  have hb := h.bucket (hashv' e' % tbl'.numBuckets)
  simp only [hashLink, h.numBuckets, hR e e' he]
  exact {
    items := List.rel_append h.items (.cons he .nil)
    numBuckets := rfl
    bucket := UtBucket.Alike.update h.bucket _ ⟨.cons he hb.chain, hb.expandMult⟩
    ineffExpands := h.ineffExpands
    noexpand := h.noexpand }

theorem UtHash.Alike.expands (h : tbl.Alike R tbl') (he : R e e') :
    hashExpands hashv tbl e = hashExpands hashv' tbl' e' := by
  have hb := h.bucket (hashv' e' % tbl'.numBuckets)
  simp only [hashExpands, h.numBuckets, hR e e' he, hb.expandMult, hb.chain.length_eq, h.noexpand]

theorem UtHash.Alike.add (h : tbl.Alike R tbl') (he : R e e') :
    (hashAdd hashv tbl e).Alike R (hashAdd hashv' tbl' e') := by
  rw [hashAdd, hashAdd, h.expands hR he]
  split
  · exact (h.link hR he).expand hR
  · exact h.link hR he

theorem alike_addAll {es : List α} {es' : List β} (h : List.Forall₂ R es es') :
    (hashAddAll hashv es).Alike R (hashAddAll hashv' es') := by
  refine List.rel_foldl (P := UtHash.Alike R) ?_ alike_makeTable h
  intro tbl tbl' htbl e e' he
  exact htbl.add hR he

omit hR

/-- A lookup finds items that correspond to each other, or none in both tables. -/
theorem UtHash.Alike.find {q : β → Bool} (h : tbl.Alike R tbl')
    (hpq : ∀ a b, R a b → p a = q b) : Option.Rel R (hashFind tbl hv p) (hashFind tbl' hv q) := by
  have hchain := (h.bucket (hv % tbl.numBuckets)).chain
  rw [hashFind, hashFind, ← h.numBuckets]
  generalize (tbl.buckets (hv % tbl.numBuckets)).chain = l at hchain
  generalize (tbl'.buckets (hv % tbl.numBuckets)).chain = l' at hchain
  induction hchain with
  | nil => exact .none
  | @cons a b l l' hab _ ih =>
      cases hp : p a with
      | true =>
          have hq : q b = true := (hpq a b hab).symm.trans hp
          rw [List.find?_cons_of_pos hp, List.find?_cons_of_pos hq]
          exact .some hab
      | false =>
          have hq : q b = false := (hpq a b hab).symm.trans hp
          rw [List.find?_cons_of_neg (by simp [hp]), List.find?_cons_of_neg (by simp [hq])]
          exact ih

end

-- ============================================================================
-- Deleting
-- ============================================================================

variable [DecidableEq α]

theorem hashDelete_items : (hashDelete hashv tbl e).items = tbl.items.erase e := by
  rw [hashDelete]
  split
  · rename_i hone
    rw [hone, List.erase_cons_head]
    rfl
  · rfl

theorem hashDelete_chain (hmore : tbl.items ≠ [e]) (i : Nat) :
    ((hashDelete hashv tbl e).buckets i).chain =
      if hashv e % tbl.numBuckets = i then (tbl.buckets i).chain.erase e
      else (tbl.buckets i).chain := by
  rw [hashDelete, if_neg hmore]
  by_cases hi : hashv e % tbl.numBuckets = i
  · subst hi
    simp
  · rw [if_neg hi]
    simp [Function.update_of_ne (Ne.symm hi)]

theorem UtHash.Placed.delete (h : tbl.Placed hashv) (hdistinct : tbl.Distinct) :
    (hashDelete hashv tbl e).Placed hashv := by
  by_cases hone : tbl.items = [e]
  · rw [hashDelete, if_pos hone]
    exact placed_makeTable
  have hnum : (hashDelete hashv tbl e).numBuckets = tbl.numBuckets := by
    rw [hashDelete, if_neg hone]
  constructor
  · rw [hnum]
    exact h.pos
  · intro i x
    rw [hashDelete_chain hone, hashDelete_items, hnum, hdistinct.items.mem_erase_iff]
    split
    · rw [(hdistinct.chain i).mem_erase_iff, h.mem, and_assoc]
    · rename_i hi
      rw [h.mem]
      constructor
      · rintro ⟨hx, hxi⟩
        refine ⟨⟨?_, hx⟩, hxi⟩
        rintro rfl
        exact hi hxi
      · rintro ⟨⟨-, hx⟩, hxi⟩
        exact ⟨hx, hxi⟩

theorem UtHash.Distinct.delete (h : tbl.Distinct) : (hashDelete hashv tbl e).Distinct := by
  by_cases hone : tbl.items = [e]
  · rw [hashDelete, if_pos hone]
    exact distinct_makeTable
  constructor
  · rw [hashDelete_items]
    exact h.items.erase e
  · intro i
    rw [hashDelete_chain hone]
    split
    · exact (h.chain i).erase e
    · exact h.chain i

theorem find?_erase (l : List α) (hp : p e = false) : (l.erase e).find? p = l.find? p := by
  induction l with
  | nil => rfl
  | cons x l ih =>
      by_cases hx : x = e
      · subst hx
        rw [List.erase_cons_head, List.find?_cons_of_neg (by simp [hp])]
      · rw [List.erase_cons_tail (by simpa using hx), List.find?_cons, List.find?_cons, ih]

/-- Lookups of other keys do not notice that an item is gone. -/
theorem UtHash.Placed.delete_find (h : tbl.Placed hashv) (hp : p e = false)
    (hhash : ∀ x, p x = true → hashv x = hv) :
    hashFind (hashDelete hashv tbl e) hv p = hashFind tbl hv p := by
  by_cases hone : tbl.items = [e]
  · rw [hashDelete, if_pos hone]
    have hnone : hashFind tbl hv p = none := by
      rw [h.find_none_iff hhash, hone]
      simpa using hp
    rw [hnone]
    rfl
  · have hnum : (hashDelete hashv tbl e).numBuckets = tbl.numBuckets := by
      rw [hashDelete, if_neg hone]
    rw [hashFind, hashFind, hnum, hashDelete_chain hone]
    split
    · exact find?_erase _ hp
    · rfl

end

end Lib
end HttpProxy
