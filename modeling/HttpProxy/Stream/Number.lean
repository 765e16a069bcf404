/-
  HttpProxy.Stream.Number

  What atoi and sscanf("%x") make of a string of digits: its value, reduced to
  the 32 bits of an `int`; and what sprintf("%d") makes of that value again
  (`sprintfD_atoi`).
-/

import HttpProxy.Core.Basic
import Mathlib.Tactic.Common
import Mathlib.Data.List.Induction
import Mathlib.Data.List.TakeWhile

namespace HttpProxy

-- ============================================================================
-- 32-bit integers
-- ============================================================================

section

variable {n : Nat} {x : Int}

theorem toInt32_eq (x : Int) :
    toInt32 x = if x % 2 ^ 32 < 2 ^ 31 then x % 2 ^ 32 else x % 2 ^ 32 - 2 ^ 32 := by
  rw [toInt32, Int.bmod]
  rfl

theorem toInt32_of_lt (h₀ : 0 ≤ x) (h : x < 2 ^ 31) : toInt32 x = x := by
  rw [toInt32_eq]
  split <;> omega

/-- The value `atoi` gives a decimal number as long as it fits, and what is left of it
    otherwise. -/
def intLength (n : Nat) : Nat := (toInt32 (min n (2 ^ 63 - 1) : Nat)).toNat

theorem intLength_of_lt (h : n < 2 ^ 31) : intLength n = n := by
  rw [intLength, Nat.min_eq_left (by omega), toInt32_of_lt (by omega) (by omega),
    Int.toNat_natCast]

theorem intLength_le (n : Nat) : intLength n ≤ n := by
  rw [intLength, toInt32_eq]
  split <;> omega

theorem intLength_ne (h : 2 ^ 31 ≤ n) : intLength n ≠ n := by
  rw [intLength, toInt32_eq]
  split <;> omega

end

-- ============================================================================
-- atoi
-- ============================================================================

/-- A decimal number without a sign. -/
def Digits (ds : Bytes) : Prop := ds ≠ [] ∧ ∀ b ∈ ds, isDigit b = true

section

variable {b : UInt8} {ds rest : Bytes}

theorem isDigit_iff : isDigit b = true ↔ 48 ≤ b.toNat ∧ b.toNat ≤ 57 := by
  simp [isDigit, UInt8.le_iff_toNat_le]

/-- No hexadecimal digit is a sign, a space or the letter of a `0x`. -/
theorem hexVal_isSome_ne (h : (hexVal b).isSome = true) :
    isSpace b = false ∧ b ≠ 45 ∧ b ≠ 43 ∧ b ≠ 120 ∧ b ≠ 88 := by
  have hb := b.toNat_lt
  simp only [hexVal, isDigit, isSpace, Bool.and_eq_true, decide_eq_true_eq,
    UInt8.le_iff_toNat_le, UInt8.reduceToNat, ← UInt8.toNat_inj, Bool.or_eq_false_iff,
    Bool.and_eq_false_iff, decide_eq_false_iff_not, ne_eq] at h ⊢
  split at h
  · omega
  · split at h
    · omega
    · split at h
      · omega
      · exact absurd h (by simp)

theorem isDigit_hexVal (h : isDigit b = true) : (hexVal b).isSome = true := by
  simp [hexVal, h]

/-- `atoi` stops at the first byte that is no digit. -/
theorem atoi_digits_append (h : Digits ds) (hrest : ∀ b ∈ rest.head?, isDigit b = false) :
    atoi (ds ++ rest) = toInt32 (min (digitsVal 10 ds) (2 ^ 63 - 1) : Nat) := by
  obtain ⟨hne, hall⟩ := h
  have hstop : rest.takeWhile isDigit = [] := by
    cases rest with
    | nil => rfl
    | cons b rest => rw [List.takeWhile_cons_of_neg (by rw [hrest b rfl]; decide)]
  have htake : (ds ++ rest).takeWhile isDigit = ds := by
    rw [List.takeWhile_append_of_pos hall, hstop, List.append_nil]
  obtain ⟨d, ds, rfl⟩ := List.exists_cons_of_ne_nil hne
  obtain ⟨hspace, hminus, hplus, _⟩ :=
    hexVal_isSome_ne (isDigit_hexVal (hall d List.mem_cons_self))
  have hdrop : (d :: ds ++ rest).dropWhile isSpace = d :: ds ++ rest := by simp [hspace]
  have hsign : splitSign (d :: ds ++ rest) = (false, d :: ds ++ rest) := by
    simp [splitSign, hminus, hplus]
  rw [atoi, hdrop, hsign]
  simp only [htake]
  exact if_neg (by decide)

/-- `atoi` on a decimal number. -/
theorem atoi_digits (h : Digits ds) :
    atoi ds = toInt32 (min (digitsVal 10 ds) (2 ^ 63 - 1) : Nat) := by
  have happ := atoi_digits_append h (show ∀ b ∈ ([] : Bytes).head?, isDigit b = false by simp)
  rwa [List.append_nil] at happ

end

-- ============================================================================
-- sscanf("%x")
-- ============================================================================

/-- A hexadecimal number without a sign and without `0x`. -/
def HexDigits (ds : Bytes) : Prop := ds ≠ [] ∧ ∀ b ∈ ds, (hexVal b).isSome = true

instance (ds : Bytes) : Decidable (HexDigits ds) :=
  have := List.decidableBAll (fun b => (hexVal b).isSome = true) ds
  inferInstanceAs (Decidable (ds ≠ [] ∧ ∀ b ∈ ds, (hexVal b).isSome = true))

section

variable {b : UInt8} {ds rest : Bytes}

/-- The digits are taken up to the first byte that is none. -/
theorem hexDigits_append (h : HexDigits ds) (hrest : ∀ b ∈ rest.head?, (hexVal b).isSome = false)
    (hx : ∀ b ∈ rest.head?, b ≠ 120 ∧ b ≠ 88) : hexDigits (ds ++ rest) = some ds := by
  obtain ⟨hne, hall⟩ := h
  have hstop : rest.takeWhile (fun b => (hexVal b).isSome) = [] := by
    cases rest with
    | nil => rfl
    | cons b rest => simp [hrest b rfl]
  have htake (ds : Bytes) (hall : ∀ b ∈ ds, (hexVal b).isSome = true) :
      (ds ++ rest).takeWhile (fun b => (hexVal b).isSome) = ds := by
    rw [List.takeWhile_append_of_pos hall, hstop, List.append_nil]
  unfold hexDigits
  split
  · -- the number starts with a zero and something behind it
    rename_i x s hs
    have hletter : ¬ (x = 120 ∨ x = 88) := by
      cases ds with
      | nil => exact absurd rfl hne
      | cons d ds =>
          rw [List.cons_append, List.cons.injEq] at hs
          cases ds with
          | nil =>
              have hxr := hx x (by rw [show rest = x :: s from hs.2]; rfl)
              exact fun h => h.elim hxr.1 hxr.2
          | cons e ds =>
              have he : e = x := (List.cons.inj hs.2).1
              have hxd := hexVal_isSome_ne (hall e (by simp))
              exact fun h => h.elim (he ▸ hxd.2.2.2.1) (he ▸ hxd.2.2.2.2)
    have hall' := htake ds hall
    rw [hs, List.takeWhile_cons_of_pos (by decide)] at hall'
    rw [if_neg (by simpa using hletter), hall']
  · rw [htake ds hall]
    simp [hne]

/-- `sscanf("%x")` on a hexadecimal number. -/
theorem sscanfX_hex (h : HexDigits ds) (hrest : ∀ b ∈ rest.head?, (hexVal b).isSome = false)
    (hx : ∀ b ∈ rest.head?, b ≠ 120 ∧ b ≠ 88) (hval : digitsVal 16 ds < 2 ^ 31) :
    sscanfX (ds ++ rest) = some (digitsVal 16 ds : Int) := by
  have hdigits := hexDigits_append h hrest hx
  obtain ⟨hne, hall⟩ := h
  obtain ⟨d, ds, rfl⟩ := List.exists_cons_of_ne_nil hne
  obtain ⟨hspace, hminus, hplus, _⟩ := hexVal_isSome_ne (hall d List.mem_cons_self)
  have hdrop : ((d :: ds) ++ rest).dropWhile isSpace = (d :: ds) ++ rest := by simp [hspace]
  have hsign : splitSign ((d :: ds) ++ rest) = (false, (d :: ds) ++ rest) := by
    simp [splitSign, hminus, hplus]
  rw [sscanfX, hdrop, hsign]
  simp only [hdigits, Option.map_some, Option.some.injEq]
  rw [if_neg (by omega), if_neg (by simp), toInt32_of_lt (by omega) (by omega)]

end

-- ============================================================================
-- sprintf("%d")
-- ============================================================================

/-- A decimal number as it is printed: nothing but a lone zero starts with one. -/
def Canonical (ds : Bytes) : Prop := Digits ds ∧ (ds.head? = some 48 → ds = [48])

section

variable {d : UInt8} {ds : Bytes}

theorem digitsVal_snoc (base : Nat) :
    digitsVal base (ds ++ [d]) = digitsVal base ds * base + (hexVal d).getD 0 := by
  rw [digitsVal, List.foldl_append]
  rfl

theorem hexVal_digit (h : isDigit d = true) : (hexVal d).getD 0 = d.toNat - 48 := by
  rw [hexVal, if_pos h]
  rfl

/-- A digit is printed as itself. -/
theorem isDigit_char (h : isDigit d = true) :
    (hexVal d).getD 0 < 10 ∧ UInt8.ofNat (Nat.digitChar ((hexVal d).getD 0)).toNat = d := by
  have hchar : ∀ n < 10, UInt8.ofNat (Nat.digitChar n).toNat = UInt8.ofNat (48 + n) := by decide
  have hval := hexVal_digit h
  rw [isDigit_iff] at h
  have hlt : d.toNat - 48 < 10 := by omega
  rw [hval, hchar _ hlt, show 48 + (d.toNat - 48) = d.toNat by omega]
  exact ⟨hlt, UInt8.ofNat_toNat⟩

theorem Canonical.init (h : Canonical (ds ++ [d])) (hne : ds ≠ []) :
    Canonical ds ∧ ds.head? ≠ some 48 := by
  have hhead : (ds ++ [d]).head? = ds.head? := List.head?_append_of_ne_nil ds hne
  have hzero : ds.head? ≠ some 48 := by
    intro hz
    have hlen := congrArg List.length (h.2 (hhead.trans hz))
    have hpos := List.length_pos_iff.mpr hne
    rw [List.length_append, List.length_singleton, List.length_singleton] at hlen
    omega
  exact ⟨⟨⟨hne, fun b hb => h.1.2 b (List.mem_append_left _ hb)⟩, fun hz => absurd hz hzero⟩, hzero⟩

theorem digitsVal_pos (h : Canonical ds) (hzero : ds.head? ≠ some 48) : 0 < digitsVal 10 ds := by
  induction ds using List.reverseRecOn with
  | nil => exact absurd rfl h.1.1
  | append_singleton ds d ih =>
      rw [digitsVal_snoc]
      by_cases hne : ds = []
      · subst hne
        have hd : isDigit d = true := h.1.2 d (by simp)
        have hval := hexVal_digit hd
        have hd48 : d.toNat ≠ 48 := by
          intro heq
          have hdeq : d = 48 := UInt8.toNat_inj.mp heq
          exact hzero (by rw [hdeq]; rfl)
        rw [isDigit_iff] at hd
        omega
      · obtain ⟨hinit, hzero'⟩ := h.init hne
        have hpos := ih hinit hzero'
        omega

theorem toDigits_digitsVal (h : Canonical ds) :
    (Nat.toDigits 10 (digitsVal 10 ds)).map (fun c => UInt8.ofNat c.toNat) = ds := by
  induction ds using List.reverseRecOn with
  | nil => exact absurd rfl h.1.1
  | append_singleton ds d ih =>
      obtain ⟨hlt, hchar⟩ := isDigit_char (h.1.2 d (by simp))
      rw [digitsVal_snoc]
      by_cases hne : ds = []
      · subst hne
        rw [show digitsVal 10 [] = 0 from rfl, Nat.zero_mul, Nat.zero_add,
          Nat.toDigits_of_lt_base hlt, List.map_singleton, hchar]
        rfl
      · obtain ⟨hinit, hzero⟩ := h.init hne
        rw [Nat.mul_comm, ← Nat.toDigits_append_toDigits (by decide)
          (digitsVal_pos hinit hzero) hlt,
          List.map_append, ih hinit, Nat.toDigits_of_lt_base hlt, List.map_singleton, hchar]

/-- A decimal number that fits an `int` is printed as it was read. -/
theorem sprintfD_atoi (h : Canonical ds) (hval : digitsVal 10 ds < 2 ^ 31) :
    sprintfD (atoi ds) = ds := by
  have hmin : min (digitsVal 10 ds) (2 ^ 63 - 1) = digitsVal 10 ds := by omega
  rw [atoi_digits h.1, hmin, toInt32_of_lt (by omega) (by omega), sprintfD, Int.natAbs_natCast]
  simp only [toDigits_digitsVal h]
  rw [if_neg (by omega)]

end

end HttpProxy
