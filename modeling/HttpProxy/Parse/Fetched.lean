/-
  HttpProxy.Parse.Fetched

  What net_fetch_http leaves in the buffer, for any start line and any header lines:
  the start line is as it was read, and the value of every entry is a string behind
  it (`Fetched.entry`).  No assumption is made on the bytes of a line.
-/

import HttpProxy.Parse.Shapes
import HttpProxy.Parse.Strings
import HttpProxy.Stream.HeadRun
import HttpProxy.Stream.Lookup

namespace HttpProxy

open Lib.Regex

-- ============================================================================
-- One header line
-- ============================================================================

/-- The string of a line: what is in front of its first NUL. -/
def lineStr (line : Bytes) : Bytes := line.takeWhile (· ≠ 0)

theorem lineStr_nul (line : Bytes) : 0 ∉ lineStr line := by
  intro hmem
  have hnot := List.mem_takeWhile_imp hmem
  simp at hnot

theorem lineStr_eq {line : Bytes} (h : 0 ∉ line) : lineStr line = line := by
  rw [lineStr, List.takeWhile_eq_self_iff]
  intro b hb
  rw [decide_eq_true_eq]
  rintro rfl
  exact h hb

theorem lineStr_length (line : Bytes) : (lineStr line).length ≤ line.length :=
  (List.takeWhile_prefix _).length_le

theorem lineStr_split (line : Bytes) : ∃ rest, line ++ [0] = lineStr line ++ ([0] ++ rest) := by
  induction line with
  | nil => exact ⟨[], rfl⟩
  | cons b line ih =>
      by_cases hb : b = 0
      · subst hb
        exact ⟨line ++ [0], rfl⟩
      · obtain ⟨rest, hrest⟩ := ih
        refine ⟨rest, ?_⟩
        rw [lineStr, List.takeWhile_cons_of_pos (by simpa using hb), List.cons_append, hrest]
        rfl

/-- `data'` is `data` behind a header line whose string is `pre`, `name`, a colon, `blanks` and
    `value`. -/
structure HeaderParsed (data data' : NetData) (pre name blanks value : Bytes) : Prop where
  table : data'.table = data.table ++
    [data.newEnt name (data.buf.len + (pre.length + name.length + 1 + blanks.length))]
  valueAt : data'.buf.StrAt (data.buf.len + (pre.length + name.length + 1 + blanks.length)) value
  sound : data'.buf.Sound
  len : data.buf.len + (pre.length + name.length + 1 + blanks.length) + value.length < data'.buf.len
  frame : ∀ off s, data.buf.StrAt off s → off + s.length < data.buf.len → data'.buf.StrAt off s

section

variable {data data' : NetData} {line hdr pre name blanks value : Bytes}

theorem addLine_eq (data : NetData) (line : Bytes) :
    (data.addLine line).buf = strbufCat data.buf (line ++ [0]) := by
  rw [NetData.addLine, strbufCat_append, strbufCat_cons, strbufCat_nil]

theorem addLine_sound (h : data.buf.Sound) (line : Bytes) : (data.addLine line).buf.Sound := by
  rw [addLine_eq]
  exact h.cat _

/-- The string of a line that has just been read. -/
theorem addLine_strAt (h : data.buf.Sound) (line : Bytes) :
    (data.addLine line).buf.StrAt data.buf.len (lineStr line) := by
  obtain ⟨rest, hsplit⟩ := lineStr_split line
  rw [addLine_eq, hsplit, ← List.append_assoc, strbufCat_append]
  refine (h.cat_nul_strAt (lineStr_nul line)).cat (h.cat _) ?_
  rw [strbufCat_len, List.length_append, List.length_singleton]
  omega

theorem addLine_frame (h : data.buf.Sound) (line : Bytes) {off : Nat} {s : Bytes}
    (hs : data.buf.StrAt off s) (hlt : off + s.length < data.buf.len) :
    (data.addLine line).buf.StrAt off s := by
  rw [addLine_eq]
  exact hs.cat h hlt

/-- `net_parse_header`, where it finds a name and a value. -/
theorem netParseHeader_found (hbuf : data.buf.Sound)
    (hstr : lineStr hdr = pre ++ (name ++ ([58] ++ (blanks ++ value))))
    (hexec : exec headerPatt (lineStr hdr) = some
      [(0, pre.length, (lineStr hdr).length),
        (2, pre.length + name.length + 1 + blanks.length, (lineStr hdr).length),
        (1, pre.length, pre.length + name.length)]) :
    ∃ data', netParseHeader (data.addLine hdr) data.buf.len = (data', 0) ∧
      HeaderParsed data data' pre name blanks value := by
  have hline := addLine_strAt hbuf hdr
  have hlen : (lineStr hdr).length =
      pre.length + name.length + 1 + blanks.length + value.length := by
    rw [hstr]
    simp only [List.length_append, List.length_singleton]
    omega
  have hbuflen : (data.addLine hdr).buf.len = data.buf.len + hdr.length + 1 := addLine_len data hdr
  have hle := lineStr_length hdr
  -- a NUL behind the name; the one behind the value is there already
  have hname₀ := (hstr ▸ hline).right
  have hvalue₀ := hname₀.right.right.right
  simp only [List.length_singleton] at hvalue₀
  have hoff : data.buf.len + pre.length + name.length + 1 + blanks.length =
      data.buf.len + (pre.length + name.length + 1 + blanks.length) := by omega
  have hcolon : data.buf.len + pre.length + name.length =
      data.buf.len + (pre.length + name.length) := by omega
  rw [hoff] at hvalue₀
  have hname₁ := hname₀.left
  rw [hcolon] at hname₁
  have hname₂ := hname₁.set (d := 0) (i := data.buf.len + (lineStr hdr).length) (.inr (by omega))
  have hvalue₂ : (((data.addLine hdr).buf.set (data.buf.len + (pre.length + name.length)) 0).set
      (data.buf.len + (lineStr hdr).length) 0).StrAt
      (data.buf.len + (pre.length + name.length + 1 + blanks.length)) value := by
    have hcut := (hvalue₀.set (d := 0) (i := data.buf.len + (pre.length + name.length))
      (.inl (by omega))).cut (Nat.le_refl value.length)
    rw [List.take_length] at hcut
    have hend : data.buf.len + (lineStr hdr).length =
        data.buf.len + (pre.length + name.length + 1 + blanks.length) + value.length := by omega
    rw [hend]
    exact hcut
  refine ⟨⟨((data.addLine hdr).buf.set (data.buf.len + (pre.length + name.length)) 0).set
      (data.buf.len + (lineStr hdr).length) 0, _, data.heap⟩, ?_, rfl, hvalue₂,
    ((addLine_sound hbuf hdr).set _ _).set _ _, ?_, fun off s hs hlt => ?_⟩
  · rw [netParseHeader, hline.str, hexec]
    exact congrArg (fun key : Bytes => (NetData.mk
      (((data.addLine hdr).buf.set (data.buf.len + (pre.length + name.length)) 0).set
        (data.buf.len + (lineStr hdr).length) 0)
      (data.table ++
        [data.newEnt key (data.buf.len + (pre.length + name.length + 1 + blanks.length))])
      data.heap, (0 : Int))) hname₂.str
  · show _ < (data.addLine hdr).buf.len
    omega
  · exact ((addLine_frame hbuf hdr hs hlt).set (.inr (by omega))).set (.inr (by omega))

/-- A header line that is accepted has a name and a value. -/
theorem netParseHeader_inv (hbuf : data.buf.Sound)
    (h : netParseHeader (data.addLine hdr) data.buf.len = (data', 0)) :
    ∃ pre name blanks value, lineStr hdr = pre ++ (name ++ ([58] ++ (blanks ++ value))) ∧
      name ≠ [] ∧ (∀ x ∈ name, nameChar x = true) ∧ (∀ x ∈ blanks, x = 32) ∧
      HeaderParsed data data' pre name blanks value := by
  cases hexec : exec headerPatt (lineStr hdr) with
  | none =>
      rw [netParseHeader, (addLine_strAt hbuf hdr).str, hexec] at h
      exact absurd (Prod.mk.inj h).2 (by decide)
  | some res =>
      obtain ⟨pre, name, blanks, value, hstr, hne, hname, hblanks, rfl⟩ := headerPatt_shape hexec
      obtain ⟨data₁, hparse, hdata⟩ := netParseHeader_found hbuf hstr hexec
      rw [h] at hparse
      obtain ⟨rfl, -⟩ := Prod.mk.inj hparse
      exact ⟨pre, name, blanks, value, hstr, hne, hname, hblanks, hdata⟩

end

-- ============================================================================
-- A head
-- ============================================================================

/-- The data behind a start line and header lines that have all been accepted. -/
inductive Fetched (line : Bytes) : NetData → Prop where
  | start {heap : Nat → Bytes} : Fetched line ((netDataInit heap).addLine line)
  | header {data data' : NetData} {hdr : Bytes} : Fetched line data →
      netParseHeader (data.addLine hdr) data.buf.len = (data', 0) → Fetched line data'

theorem netDataInit_sound (heap : Nat → Bytes) : (netDataInit heap).buf.Sound :=
  strbufInit_holds.sound

namespace Fetched

variable {line : Bytes} {data : NetData}

theorem sound (h : Fetched line data) : data.buf.Sound := by
  induction h with
  | @start heap => exact addLine_sound (netDataInit_sound heap) line
  | header _ hparse ih =>
      obtain ⟨_, _, _, _, _, _, _, _, hdata⟩ := netParseHeader_inv ih hparse
      exact hdata.sound

/-- The start line is in front, and ends within the content. -/
theorem lineAt (h : Fetched line data) :
    data.buf.StrAt 0 (lineStr line) ∧ line.length < data.buf.len := by
  induction h with
  | @start heap =>
      refine ⟨addLine_strAt (netDataInit_sound heap) line, ?_⟩
      rw [addLine_len, show (netDataInit heap).buf.len = 0 from rfl]
      omega
  | @header data data' hdr hdata hparse ih =>
      obtain ⟨_, _, _, _, _, _, _, _, hdata'⟩ := netParseHeader_inv hdata.sound hparse
      have hle := lineStr_length line
      refine ⟨hdata'.frame _ _ ih.1 (by omega), ?_⟩
      have hlen := hdata'.len
      omega

/-- Every entry has a value, which is a string behind the start line. -/
theorem entry (h : Fetched line data) {e : NetHeaderEnt} (he : e ∈ data.table) :
    line.length < e.valOffset ∧
      ∃ v, data.buf.StrAt e.valOffset v ∧ e.valOffset + v.length < data.buf.len := by
  induction h with
  | start => exact absurd he List.not_mem_nil
  | @header data data' hdr hdata hparse ih =>
      obtain ⟨_, _, _, value, _, _, _, _, hdata'⟩ := netParseHeader_inv hdata.sound hparse
      have hlen := hdata'.len
      have hline := hdata.lineAt.2
      rw [hdata'.table, List.mem_append, List.mem_singleton] at he
      rcases he with he | rfl
      · obtain ⟨hoff, v, hv, hlt⟩ := ih he
        exact ⟨hoff, v, hdata'.frame _ _ hv hlt, by omega⟩
      · refine ⟨?_, value, hdata'.valueAt, hlen⟩
        show line.length < data.buf.len + _
        omega

/-- The value a lookup finds. -/
theorem lookup (h : Fetched line data) {key : Bytes} {off : Nat}
    (hoff : netDataGetEntOffset data key = some off) :
    line.length < off ∧ ∃ v, data.buf.StrAt off v ∧ off + v.length < data.buf.len := by
  obtain ⟨e, he, -, rfl⟩ := netDataGetEntOffset_mem hoff
  exact h.entry he

end Fetched

theorem HeadersRead.fetched {line u rest : Bytes} {data data' : NetData}
    (h : HeadersRead data u data' rest) (hdata : Fetched line data) : Fetched line data' := by
  induction h with
  | last _ => exact hdata
  | next _ _ hparse _ ih => exact ih (.header hdata hparse)

/-- Every head `net_fetch_http` accepts is fetched, or there is no line at all. -/
theorem HeadRead.fetched {heap : Nat → Bytes} {u rest : Bytes} {data : NetData}
    (h : HeadRead heap u data rest) :
    data = netDataInit heap ∨ ∃ line, line ≠ [] ∧ Fetched line data := by
  cases h with
  | empty _ => exact .inl rfl
  | lines _ hne hread => exact .inr ⟨_, hne, hread.fetched .start⟩

end HttpProxy
