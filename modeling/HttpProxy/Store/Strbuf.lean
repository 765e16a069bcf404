/-
  HttpProxy.Store.Strbuf

  Sequences of calls on a `struct strbuf`.

  `strbufAppendIn` is strbuf_append with its bounds made explicit: it has no
  result where a store would leave the allocation or where the doubled capacity
  would leave `int`.  Below 2^29 appended bytes every call has a result, and it
  is the one of HttpProxy.Core.Strbuf.

  strbuf_reset does not put the NUL back that strbuf_init and every append leave
  at `p[len]`, so the buffer is not the C string of its (empty) content until
  something is appended again (`strbuf_exact_iff`).
-/

import HttpProxy.Stream.Buffer
import Mathlib.Data.List.Induction
import Mathlib.Data.List.Infix

namespace HttpProxy

-- ============================================================================
-- Calls
-- ============================================================================

/-- A call on a buffer after `strbuf_init`.  `cat s` is given what is stored from
    its pointer on. -/
inductive StrbufOp where
  | append (ch : UInt8)
  | cat (s : Bytes)
  | appendNum (x : Int32)
  | reset

/-- The capacity `strbuf_append` may not reach: `INT_MAX + 1`. -/
def INT_LIMIT : Nat := 2147483648

/-- 2^29 -/
def APPENDED_LIMIT : Nat := 536870912

def StrbufOp.exec (buf : Strbuf) : StrbufOp → Strbuf
  | append ch => strbufAppend buf ch
  | cat s => strbufCat buf (cstrAt s 0)
  | appendNum x => strbufAppendNum buf x.toInt
  | reset => strbufReset buf

/-- The buffer after a sequence of calls. -/
def strbufAfter (ops : List StrbufOp) : Strbuf := ops.foldl StrbufOp.exec strbufInit

-- ============================================================================
-- Calls with their bounds
-- ============================================================================

/-- `buf->p[i] = c` inside of the allocation. -/
def Strbuf.store (buf : Strbuf) (i : Nat) (c : UInt8) : Option Strbuf :=
  if i < buf.cap then some (buf.set i c) else none

/-- The doubling at the head of `strbuf_append`, inside of `int`. -/
def strbufGrowIn (buf : Strbuf) : Option Strbuf :=
  if buf.len + 1 = buf.cap then
    if buf.cap * 2 < INT_LIMIT then
      some { buf with p := buf.p ++ List.replicate buf.cap 0, cap := buf.cap * 2 }
    else none
  else some buf

/-- `strbuf_append`, every access within its bounds. -/
def strbufAppendIn (buf : Strbuf) (ch : UInt8) : Option Strbuf := do
  let b ← strbufGrowIn buf
  let b ← b.store b.len ch
  { b with len := b.len + 1 }.store (b.len + 1) 0

/-- A call, every access within its bounds. -/
def StrbufOp.execIn (buf : Strbuf) : StrbufOp → Option Strbuf
  | append ch => strbufAppendIn buf ch
  | cat s => (cstrAt s 0).foldlM strbufAppendIn buf
  | appendNum x => (sprintfD x.toInt).foldlM strbufAppendIn buf
  | reset => some (strbufReset buf)

def strbufAfterIn (ops : List StrbufOp) : Option Strbuf :=
  ops.foldlM StrbufOp.execIn strbufInit

-- ============================================================================
-- What was appended
-- ============================================================================

/-- What a sequence of calls appends: the bytes since the last reset, and the first
    byte of the last stretch between resets that is not empty (NUL when every
    stretch is). -/
structure Appended where
  bytes : Bytes
  first : UInt8

def Appended.add (a : Appended) (s : Bytes) : Appended :=
  { bytes := a.bytes ++ s, first := (a.bytes ++ s).headD a.first }

def Appended.step (a : Appended) : StrbufOp → Appended
  | .append ch => a.add [ch]
  | .cat s => a.add (cstrAt s 0)
  | .appendNum x => a.add (sprintfD x.toInt)
  | .reset => { a with bytes := [] }

def appendedBy (ops : List StrbufOp) : Appended := ops.foldl Appended.step ⟨[], 0⟩

/-- Less than 2^29 bytes between two resets, at every point of the sequence. -/
def Bounded (ops : List StrbufOp) : Prop :=
  ∀ pre, pre <+: ops → (appendedBy pre).bytes.length < APPENDED_LIMIT

instance (ops : List StrbufOp) : Decidable (Bounded ops) :=
  decidable_of_iff (∀ pre ∈ ops.inits, (appendedBy pre).bytes.length < APPENDED_LIMIT)
    (forall_congr' fun pre => by rw [List.mem_inits])

/-- The buffer is the C string `s`, with room for its NUL. -/
structure Strbuf.Shows (buf : Strbuf) (s : Bytes) : Prop where
  len_lt : buf.len < buf.cap
  alloc : buf.p.length = buf.cap
  content : buf.content = s
  terminated : buf.p[buf.len]? = some 0
  str : 0 ∉ s → buf.str 0 = s

/-- After the calls nothing has left its bounds, the capacity has never decreased
    and the buffer shows what was appended since the last reset. -/
def StrbufExact (ops : List StrbufOp) : Prop :=
  strbufAfterIn ops = some (strbufAfter ops) ∧
    (∀ pre, pre <+: ops → (strbufAfter pre).cap ≤ (strbufAfter ops).cap) ∧
    (strbufAfter ops).Shows (appendedBy ops).bytes

section

variable {buf : Strbuf} {s t : Bytes} {ops : List StrbufOp} {a : Appended} {c : UInt8}

theorem strbufAfter_append (ops : List StrbufOp) (op : StrbufOp) :
    strbufAfter (ops ++ [op]) = op.exec (strbufAfter ops) := by
  simp [strbufAfter]

theorem strbufAfterIn_append (ops : List StrbufOp) (op : StrbufOp) :
    strbufAfterIn (ops ++ [op]) = (strbufAfterIn ops).bind fun b => op.execIn b := by
  simp [strbufAfterIn]

theorem appendedBy_append (ops : List StrbufOp) (op : StrbufOp) :
    appendedBy (ops ++ [op]) = (appendedBy ops).step op := by
  simp [appendedBy]

theorem Bounded.init {op : StrbufOp} (h : Bounded (ops ++ [op])) : Bounded ops := by
  intro pre hpre
  exact h pre (hpre.trans (List.prefix_append ops [op]))

theorem Bounded.last (h : Bounded ops) : (appendedBy ops).bytes.length < APPENDED_LIMIT :=
  h ops (List.prefix_refl ops)

-- ============================================================================
-- Appending stays within its bounds
-- ============================================================================

theorem Strbuf.Raw.len_lt_cap (h : buf.Raw s) : buf.len < buf.cap := by
  obtain ⟨rest, hp, hne⟩ := h.p
  have hlen := congrArg List.length hp
  have hrest := List.length_pos_iff.mpr hne
  rw [List.length_append] at hlen
  have hcap := h.cap
  have hs := h.len
  omega

theorem strbufGrow_cap (buf : Strbuf) : buf.cap ≤ (strbufGrow buf).cap := by
  rw [strbufGrow]
  split
  · show buf.cap ≤ buf.cap * 2
    omega
  · exact Nat.le_refl _

theorem strbufGrow_room (h : buf.Raw s) : (strbufGrow buf).len + 1 < (strbufGrow buf).cap := by
  obtain ⟨hlen, hcap, x, y, rest, hp⟩ := strbufGrow_p h
  rw [hlen, hcap, hp]
  simp only [List.length_append, List.length_cons]
  omega

/-- The capacity is doubled when it is `len + 1`. -/
theorem strbufGrowIn_eq (h : buf.Raw s) (hs : s.length < APPENDED_LIMIT) :
    strbufGrowIn buf = some (strbufGrow buf) := by
  rw [strbufGrowIn, strbufGrow]
  split
  · rename_i hfull
    have hcap : buf.cap * 2 < INT_LIMIT := by
      rw [← hfull, h.len]
      rw [APPENDED_LIMIT] at hs
      rw [INT_LIMIT]
      omega
    rw [if_pos hcap]
  · rfl

theorem strbufAppendIn_eq (h : buf.Raw s) (hs : s.length < APPENDED_LIMIT) :
    strbufAppendIn buf c = some (strbufAppend buf c) := by
  have hroom := strbufGrow_room h
  have hbyte : (strbufGrow buf).len < (strbufGrow buf).cap := by omega
  rw [strbufAppendIn, strbufGrowIn_eq h hs]
  simp only [Option.bind_eq_bind, Option.bind_some, Strbuf.store, Strbuf.set, if_pos hbyte,
    if_pos hroom]
  rfl

/-- Every byte of a string finds room. -/
theorem strbufCatIn_eq (h : buf.Raw s) (hs : (s ++ t).length ≤ APPENDED_LIMIT) :
    t.foldlM strbufAppendIn buf = some (strbufCat buf t) := by
  induction t generalizing buf s with
  | nil => rfl
  | cons c t ih =>
      have hlt : s.length < APPENDED_LIMIT := by
        rw [List.length_append, List.length_cons] at hs
        omega
      have hrest : ((s ++ [c]) ++ t).length ≤ APPENDED_LIMIT := by
        rw [List.append_assoc]
        exact hs
      rw [List.foldlM_cons, strbufAppendIn_eq h hlt]
      exact ih (strbufAppend_holds h).raw hrest

theorem strbufCat_cap (buf : Strbuf) (t : Bytes) : buf.cap ≤ (strbufCat buf t).cap := by
  induction t generalizing buf with
  | nil => exact Nat.le_refl _
  | cons c t ih =>
      have happend : buf.cap ≤ (strbufAppend buf c).cap := strbufGrow_cap buf
      exact Nat.le_trans happend (ih _)

-- ============================================================================
-- The invariant
-- ============================================================================

/-- `buf` after the calls that appended `a`: the first byte of an empty buffer is
    the one the last stretch left there. -/
structure Tracks (buf : Strbuf) (a : Appended) : Prop where
  raw : buf.Raw a.bytes
  holds : a.bytes ≠ [] → buf.Holds a.bytes
  first : buf.p.head? = some a.first

theorem Strbuf.Raw.head (h : buf.Raw s) (hs : s ≠ []) (d : UInt8) :
    buf.p.head? = some (s.headD d) := by
  obtain ⟨c, s, rfl⟩ := List.exists_cons_of_ne_nil hs
  obtain ⟨rest, hp, _⟩ := h.p
  rw [hp]
  rfl

theorem tracks_init : Tracks strbufInit ⟨[], 0⟩ where
  raw := strbufInit_holds.raw
  holds h := absurd rfl h
  first := rfl

theorem Tracks.cat (h : Tracks buf a) (t : Bytes) : Tracks (strbufCat buf t) (a.add t) := by
  by_cases ht : t = []
  · subst ht
    have hfirst : a.bytes.headD a.first = a.first := by
      cases hbytes : a.bytes with
      | nil => rfl
      | cons c s =>
          have hhead := h.raw.head (by rw [hbytes]; simp) a.first
          rw [h.first, hbytes, Option.some.injEq] at hhead
          exact hhead.symm
    have hadd : a.add [] = a := by rw [Appended.add, List.append_nil, hfirst]
    rw [hadd]
    exact h
  · have hholds : (strbufCat buf t).Holds (a.bytes ++ t) := strbufCat_holds_of_raw h.raw ht
    refine ⟨hholds.raw, fun _ => hholds, ?_⟩
    exact hholds.raw.head (by simp [ht]) a.first

theorem Tracks.reset (h : Tracks buf a) : Tracks (strbufReset buf) { a with bytes := [] } where
  raw := h.raw.reset
  holds hne := absurd rfl hne
  first := h.first

/-- One call keeps the invariant. -/
theorem Tracks.step (h : Tracks buf a) (op : StrbufOp) : Tracks (op.exec buf) (a.step op) := by
  cases op with
  | append ch => exact h.cat [ch]
  | cat s => exact h.cat (cstrAt s 0)
  | appendNum x => exact h.cat (sprintfD x.toInt)
  | reset => exact h.reset

theorem tracks_after (ops : List StrbufOp) : Tracks (strbufAfter ops) (appendedBy ops) := by
  induction ops using List.reverseRecOn with
  | nil => exact tracks_init
  | append_singleton ops op ih =>
      rw [strbufAfter_append, appendedBy_append]
      exact ih.step op

/-- One call stays within its bounds. -/
theorem Tracks.execIn (h : Tracks buf a) (op : StrbufOp)
    (hlt : (a.step op).bytes.length < APPENDED_LIMIT) : op.execIn buf = some (op.exec buf) := by
  cases op with
  | append ch =>
      apply strbufAppendIn_eq h.raw
      have hlen : (a.bytes ++ [ch]).length < APPENDED_LIMIT := hlt
      rw [List.length_append] at hlen
      omega
  | cat s => exact strbufCatIn_eq h.raw (Nat.le_of_lt hlt)
  | appendNum x => exact strbufCatIn_eq h.raw (Nat.le_of_lt hlt)
  | reset => rfl

theorem strbufAfterIn_eq (h : Bounded ops) : strbufAfterIn ops = some (strbufAfter ops) := by
  induction ops using List.reverseRecOn with
  | nil => rfl
  | append_singleton ops op ih =>
      have hlast := h.last
      rw [appendedBy_append] at hlast
      rw [strbufAfterIn_append, ih h.init, strbufAfter_append]
      exact (tracks_after ops).execIn op hlast

theorem StrbufOp.exec_cap (op : StrbufOp) (buf : Strbuf) : buf.cap ≤ (op.exec buf).cap := by
  cases op with
  | append ch => exact strbufGrow_cap buf
  | cat s => exact strbufCat_cap buf _
  | appendNum x => exact strbufCat_cap buf _
  | reset => exact Nat.le_refl _

theorem strbufAfter_cap {pre : List StrbufOp} (h : pre <+: ops) :
    (strbufAfter pre).cap ≤ (strbufAfter ops).cap := by
  obtain ⟨suf, rfl⟩ := h
  induction suf using List.reverseRecOn with
  | nil => rw [List.append_nil]
  | append_singleton suf op ih =>
      rw [← List.append_assoc, strbufAfter_append]
      exact Nat.le_trans ih (op.exec_cap _)

-- ============================================================================
-- The terminator
-- ============================================================================

theorem Strbuf.Holds.shows (h : buf.Holds s) : buf.Shows s where
  len_lt := h.raw.len_lt_cap
  alloc := h.cap.symm
  content := h.raw.content
  terminated := by
    obtain ⟨rest, hp⟩ := h.p
    rw [hp, h.len, List.getElem?_append_right (Nat.le_refl _), Nat.sub_self]
    rfl
  str hs := h.str_last (s := []) rfl hs

/-- An empty buffer is terminated when its first byte is NUL. -/
theorem Tracks.holds_iff (h : Tracks buf a) :
    buf.Holds a.bytes ↔ (a.bytes = [] → a.first = 0) := by
  by_cases hnil : a.bytes = []
  · have hraw := h.raw
    obtain ⟨rest, hp, hne⟩ := hraw.p
    obtain ⟨c, rest, rfl⟩ := List.exists_cons_of_ne_nil hne
    rw [hnil, List.nil_append] at hp
    have hfirst := h.first
    rw [hp, List.head?_cons, Option.some.injEq] at hfirst
    subst hfirst
    refine ⟨fun hholds _ => ?_, fun hzero => ⟨hraw.len, hraw.cap, rest, ?_⟩⟩
    · obtain ⟨rest', hp'⟩ := hholds.p
      rw [hnil, hp, List.nil_append, List.cons.injEq] at hp'
      exact hp'.1
    · rw [hp, hnil, hzero hnil]
      rfl
  · exact ⟨fun _ hbytes => absurd hbytes hnil, fun _ => h.holds hnil⟩

/-- The bytes are always in place; the NUL behind them is there as long as the calls
    do not end with a reset of a buffer that began with another byte. -/
theorem strbuf_exact_iff (h : Bounded ops) :
    StrbufExact ops ↔ ((appendedBy ops).bytes = [] → (appendedBy ops).first = 0) := by
  have htracks := tracks_after ops
  rw [← htracks.holds_iff]
  constructor
  · intro hexact
    obtain ⟨rest, hp, hne⟩ := htracks.raw.p
    obtain ⟨c, rest, rfl⟩ := List.exists_cons_of_ne_nil hne
    have hnul := hexact.2.2.terminated
    rw [hp, htracks.raw.len, List.getElem?_append_right (Nat.le_refl _), Nat.sub_self,
      List.getElem?_cons_zero, Option.some.injEq] at hnul
    exact ⟨htracks.raw.len, htracks.raw.cap, rest, by rw [hp, hnul]⟩
  · intro hholds
    exact ⟨strbufAfterIn_eq h, fun _ hpre => strbufAfter_cap hpre, hholds.shows⟩

/-- "A" is the string of the buffer again as soon as it is appended behind a reset. -/
theorem strbuf_exact_again : StrbufExact [.append 66, .reset, .append 65] :=
  (strbuf_exact_iff (by decide)).mpr (by decide)

end

/-- After a reset the old string is still there. -/
theorem not_strbuf_exact :
    Bounded [.append 65, .reset] ∧ ¬ StrbufExact [.append 65, .reset] := by
  constructor
  · decide
  · intro h
    exact absurd h.2.2.terminated (by decide)

end HttpProxy
