/-
  HttpProxy.Stream.Length

  Bodies framed by Content-Length.  The field is looked up as it is spelt, its
  value is an `int`, and the copy may hide a failed write: `lengthExact_iff` says
  for which messages and connections a return value of 0 means that the body was
  relayed.
-/

import HttpProxy.Stream.Copy
import HttpProxy.Stream.Lookup
import HttpProxy.Stream.Number
import HttpProxy.Core.NetHttp

namespace HttpProxy

open Lib

-- ============================================================================
-- Header fields
-- ============================================================================

def lowerByte (b : UInt8) : UInt8 := if isUpper b then b + 32 else b

/-- Two header names that differ in upper and lower case at most. -/
def sameName (a b : Bytes) : Bool := a.map lowerByte = b.map lowerByte

/-- The fields of a header block with a name, however it is spelt. -/
def fieldsNamed (data : NetData) (name : Bytes) : List NetHeaderEnt :=
  data.table.filter fun e => sameName e.key name

/-- A message other than HEAD without Transfer-Encoding whose one Content-Length field
    is `e`, with the decimal value `n`. -/
structure LengthMessage (data : NetData) (e : NetHeaderEnt) (n : Nat) : Prop where
  notHead : data.buf.str 0 ≠ bytesOf "HEAD"
  noEncoding : fieldsNamed data (bytesOf "Transfer-Encoding") = []
  oneLength : fieldsNamed data (bytesOf "Content-Length") = [e]
  digits : Digits (data.buf.str e.valOffset)
  value : digitsVal 10 (data.buf.str e.valOffset) = n

section

variable {data : NetData} {e : NetHeaderEnt} {name : Bytes} {n : Nat}

/-- A lookup only finds fields with the name. -/
theorem netDataGetEntOffset_named (hname : name.length < HTTP_HEADER_KEY_MAXLEN)
    (h : netDataGetEntOffset data name ≠ none) :
    ∃ e ∈ fieldsNamed data name, e.key = name ∧
      netDataGetEntOffset data name = some e.valOffset := by
  obtain ⟨x, hx⟩ := Option.ne_none_iff_exists'.mp h
  obtain ⟨e, he, hhas, rfl⟩ := netDataGetEntOffset_mem hx
  have hkey := (NetHeaderEnt.hasKey_iff hname).mp hhas
  refine ⟨e, List.mem_filter.mpr ⟨he, ?_⟩, hkey, hx⟩
  simp [sameName, hkey]

theorem netDataGetEnt_none (hname : name.length < HTTP_HEADER_KEY_MAXLEN)
    (h : fieldsNamed data name = []) : netDataGetEnt data name = none := by
  rw [netDataGetEnt, Option.map_eq_none_iff]
  by_contra hne
  obtain ⟨e, he, _⟩ := netDataGetEntOffset_named hname hne
  rw [h] at he
  exact absurd he (List.not_mem_nil)

/-- The only field of a name is found when it is spelt like the name. -/
theorem netDataGetEnt_one (h : fieldsNamed data name = [e])
    (hname : name.length < HTTP_HEADER_KEY_MAXLEN) :
    netDataGetEnt data name = if e.key = name then some (data.buf.str e.valOffset) else none := by
  split
  · rename_i hkey
    have hne : netDataGetEntOffset data name ≠ none := by
      rw [ne_eq, netDataGetEntOffset_none_iff]
      intro hall
      have hmem : e ∈ data.table := (List.mem_filter.mp (by rw [← fieldsNamed, h]; simp)).1
      have hhas : e.hasKey name = true := (NetHeaderEnt.hasKey_iff hname).mpr hkey
      rw [hall e hmem] at hhas
      exact absurd hhas (by decide)
    obtain ⟨e', he', _, hval⟩ := netDataGetEntOffset_named hname hne
    rw [h, List.mem_singleton] at he'
    rw [netDataGetEnt, hval, he']
    rfl
  · rename_i hkey
    rw [netDataGetEnt, Option.map_eq_none_iff]
    by_contra hne
    obtain ⟨e', he', hkey', _⟩ := netDataGetEntOffset_named hname hne
    rw [h, List.mem_singleton] at he'
    exact hkey (he' ▸ hkey')

-- ============================================================================
-- The transfer
-- ============================================================================

/-- How many bytes are copied for the field `e` with value `n`. -/
def copyLength (e : NetHeaderEnt) (n : Nat) : Nat :=
  if e.key = bytesOf "Content-Length" then intLength n else 0

/-- `if (len > 0)` on the natural number `len` stands for. -/
theorem ite_toNat {α : Type 1} (x : Int) (f : Int → α) (a : α) :
    (if x > 0 then f x else a) = if x.toNat = 0 then a else f x.toNat := by
  by_cases hx : x > 0
  · rw [if_pos hx, if_neg (by omega), Int.toNat_of_nonneg (by omega)]
  · rw [if_neg hx, if_pos (by omega)]

theorem netTransferBody_length (dst src : Role) (h : LengthMessage data e n) :
    netTransferBody dst src data =
      if copyLength e n = 0 then pure 0 else connCopy dst src (copyLength e n : Nat) := by
  have henc := netDataGetEnt_none (by decide) h.noEncoding
  have hlen := netDataGetEnt_one h.oneLength (by decide)
  rw [netTransferBody, if_neg h.notHead, henc, if_neg (by simp), netTransferLength, hlen]
  unfold copyLength
  by_cases hkey : e.key = bytesOf "Content-Length"
  · rw [if_pos hkey, if_pos hkey]
    rw [Option.map_some, Option.getD_some, atoi_digits h.digits, h.value]
    exact ite_toNat _ _ _
  · rw [if_neg hkey, if_neg hkey]
    simp

end

/-- `net_transfer_body_HTTP_1_1` fails, or it copies exactly the next `n` bytes. -/
def LengthExact (src : Role) (data : NetData) (n : Nat) (w : Wire) : Prop :=
  ∃ ret w', Evals (netTransferBody src.other src data) w ret w' ∧
    (ret = 0 → Relay src w w' ((w.unread src).take n) ((w.unread src).take n))

section

variable {data : NetData} {e : NetHeaderEnt} {n : Nat} {src : Role} {w : Wire}

/-- The number of bytes a copy took is a matter of fact. -/
theorem lengthExact_put {ret : Int} {w' : Wire} {put : Bytes}
    (he : Evals (netTransferBody src.other src data) w ret w') (hret : ret = 0)
    (hput : (w'.sock src.other).sent = (w.sock src.other).sent ++ put)
    (h : LengthExact src data n w) : put = (w.unread src).take n := by
  obtain ⟨ret₁, w₁, he₁, h₁⟩ := h
  obtain ⟨rfl, rfl⟩ := he.det he₁
  exact List.append_cancel_left (hput.symm.trans (h₁ hret).sent)

theorem take_length_inj {u : Bytes} {m n : Nat} (hm : m ≤ u.length) (hn : n ≤ u.length)
    (h : u.take m = u.take n) : m = n := by
  have hlen := congrArg List.length h
  rwa [List.length_take_of_le hm, List.length_take_of_le hn] at hlen

theorem leftover_le (w : Wire) (src : Role) : (w.leftover src).length ≤ (w.unread src).length := by
  rw [Wire.unread_eq, List.length_append]
  omega

/-- The proxy copies as many bytes as the message says. -/
theorem lengthExact_of_eq (h : LengthMessage data e n) (hok : w.Ok) (hm : copyLength e n = n) :
    LengthExact src data n w ↔ (w.leftover src).length < n ∨ w.Takes src.other n := by
  have hbody := netTransferBody_length src.other src h
  rw [hm] at hbody
  by_cases hn : n = 0
  · rw [if_pos hn] at hbody
    subst hn
    refine ⟨fun _ => .inr Wire.takes_zero, fun _ => ⟨0, w, hbody ▸ .ret 0 w, fun _ => ?_⟩⟩
    simpa using .refl src w
  rw [if_neg hn] at hbody
  refine ⟨fun hexact => ?_, fun hcond => ?_⟩
  · by_contra hnot
    rw [not_or, Nat.not_lt] at hnot
    obtain ⟨k, hroom, hk⟩ : ∃ k, w.room src.other = some k ∧ k < n := by
      simpa [Wire.Takes] using hnot.2
    obtain ⟨w', he, hb, _⟩ := connCopy_lost hok hnot.1 hroom hk
    have hle := leftover_le w src
    have hkn := take_length_inj (by omega) (by omega)
      (lengthExact_put (hbody ▸ he) rfl hb.sent hexact)
    omega
  · obtain ⟨ret, w', he, ho⟩ := connCopy_eval n hok hcond
    refine ⟨ret, w', hbody ▸ he, fun hret => ?_⟩
    cases ho with
    | done hr _ _ => exact hr
    | ended k _ _ _ _ _ _ => exact absurd hret (by decide)
    | broken k _ _ _ => exact absurd hret (by decide)

/-- The proxy copies fewer bytes than the message says, unless it fails. -/
theorem lengthExact_of_ne (h : LengthMessage data e n) (hok : w.Ok) (hlive : w.Live src)
    (hn : n ≤ (w.unread src).length) (hm : copyLength e n < n) :
    LengthExact src data n w ↔ 0 < copyLength e n ∧
      (w.leftover src).length < copyLength e n ∧ ¬ w.Takes src.other (copyLength e n) := by
  have hbody := netTransferBody_length src.other src h
  generalize copyLength e n = m at hbody hm
  by_cases hzero : m = 0
  · rw [if_pos hzero] at hbody
    refine ⟨fun hexact => ?_, fun hcond => absurd hcond.1 (by omega)⟩
    have hnil : [] = (w.unread src).take n :=
      lengthExact_put (hbody ▸ .ret 0 w) rfl (List.append_nil _).symm hexact
    have hlen := congrArg List.length hnil
    rw [List.length_take_of_le hn, List.length_nil] at hlen
    omega
  rw [if_neg hzero] at hbody
  by_cases hcond : (w.leftover src).length < m ∨ w.Takes src.other m
  · obtain ⟨ret, w', he, ho⟩ := connCopy_eval m hok hcond
    cases ho with
    | done hr hle ht =>
        refine ⟨fun hexact => ?_, fun hnot => absurd ht hnot.2.2⟩
        have hmn := take_length_inj hle hn (lengthExact_put (hbody ▸ he) rfl hr.sent hexact)
        omega
    | ended k _ _ hk _ _ hend =>
        have hk' := hend hlive
        omega
    | broken k _ hroom hk =>
        have hnot : ¬ w.Takes src.other m := fun ht => by
          have hle := ht k hroom
          omega
        exact ⟨fun _ => ⟨by omega, hcond.resolve_right hnot, hnot⟩,
          fun _ => ⟨-1, w', hbody ▸ he, fun hret => absurd hret (by decide)⟩⟩
  · rw [not_or, Nat.not_lt] at hcond
    obtain ⟨k, hroom, hk⟩ : ∃ k, w.room src.other = some k ∧ k < m := by
      simpa [Wire.Takes] using hcond.2
    obtain ⟨w', he, hb, _⟩ := connCopy_lost hok hcond.1 hroom hk
    refine ⟨fun hexact => ?_, fun hlt => absurd hlt.2.1 (by omega)⟩
    have hkn := take_length_inj (by omega) hn (lengthExact_put (hbody ▸ he) rfl hb.sent hexact)
    omega

/-- Return value 0 means that the body was relayed when the field is spelt
    Content-Length, its value fits an `int` and the copy does not hide a failed write;
    a message the proxy reads otherwise is only harmless where the copy fails. -/
theorem lengthExact_iff (h : LengthMessage data e n) (hok : w.Ok) (hlive : w.Live src)
    (hn : n ≤ (w.unread src).length) :
    LengthExact src data n w ↔
      ((n = 0 ∨ e.key = bytesOf "Content-Length" ∧ n < 2 ^ 31) ∧
          ((w.leftover src).length < n ∨ w.Takes src.other n)) ∨
        (e.key = bytesOf "Content-Length" ∧ 2 ^ 31 ≤ n ∧ 0 < intLength n ∧
          (w.leftover src).length < intLength n ∧ ¬ w.Takes src.other (intLength n)) := by
  by_cases hkey : e.key = bytesOf "Content-Length"
  · have hcopy : copyLength e n = intLength n := if_pos hkey
    by_cases hsmall : n < 2 ^ 31
    · rw [lengthExact_of_eq h hok (hcopy.trans (intLength_of_lt hsmall))]
      have hnot : ¬ 2 ^ 31 ≤ n := by omega
      simp only [hkey, hsmall, hnot, and_self, or_true, true_and, false_and, and_false, or_false]
    · have hbig : 2 ^ 31 ≤ n := by omega
      have hne := intLength_ne hbig
      have hle := intLength_le n
      have hzero : n ≠ 0 := by omega
      rw [lengthExact_of_ne h hok hlive hn (by omega), hcopy]
      simp only [hkey, hsmall, hbig, hzero, and_false, or_self, true_and, false_and, false_or]
  · have hcopy : copyLength e n = 0 := if_neg hkey
    by_cases hzero : n = 0
    · rw [lengthExact_of_eq h hok (hcopy.trans hzero.symm)]
      simp [hkey, hzero]
    · rw [lengthExact_of_ne h hok hlive hn (by omega), hcopy]
      simp [hkey, hzero]

end

-- ============================================================================
-- Two spellings
-- ============================================================================

/-- The head `net_fetch_http` makes of a start line and one field. -/
def oneFieldData (start field : Bytes) : NetData :=
  (netParseHeader
    { buf := strbufAppend (strbufCat (strbufAppend (strbufCat strbufInit start) 0) field) 0
      table := []
      heap := zeroHeap } (start.length + 1)).1

/-- "Content-Length: 3", spelt like that. -/
theorem lengthExact_three :
    LengthExact .server (oneFieldData (bytesOf "HTTP/1.1 200 OK") (bytesOf "Content-Length: 3")) 3
      (.fresh ([], []) ([.data 97 [98], .block, .data 99 [100]], [])) :=
  (lengthExact_iff (e := ⟨bytesOf "Content-Length", 32, [], fun _ => rfl⟩)
    ⟨by decide +kernel, by decide +kernel, by decide +kernel,
    ⟨by decide +kernel, by decide +kernel⟩,
      by decide +kernel⟩
    (Wire.fresh_ok _ _) (Wire.fresh_live _ _ _) (by decide)).mpr
    (.inl ⟨.inr ⟨rfl, by decide⟩, .inl (by decide)⟩)

/-- "content-length: 3": the body is not relayed, and 0 is returned. -/
theorem lengthExact_lower :
    ¬ LengthExact .server
      (oneFieldData (bytesOf "HTTP/1.1 200 OK") (bytesOf "content-length: 3")) 3
      (.fresh ([], []) ([.data 97 [98], .block, .data 99 [100]], [])) := by
  have hmsg : LengthMessage (oneFieldData (bytesOf "HTTP/1.1 200 OK")
      (bytesOf "content-length: 3")) ⟨bytesOf "content-length", 32, [], fun _ => rfl⟩ 3 :=
    ⟨by decide +kernel, by decide +kernel, by decide +kernel,
    ⟨by decide +kernel, by decide +kernel⟩,
      by decide +kernel⟩
  rw [lengthExact_of_ne hmsg (Wire.fresh_ok _ _) (Wire.fresh_live _ _ _) (by decide)
    (by decide +kernel)]
  rintro ⟨hpos, _⟩
  exact absurd hpos (by decide +kernel)

end HttpProxy
