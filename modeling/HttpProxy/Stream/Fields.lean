/-
  HttpProxy.Stream.Fields

  The fields of a head, from the line on the stream to the entry of the header
  table.  `net_parse_header` turns a line into a cell of the buffer: the name and
  the value, each ended by a NUL.  `headRead_fields` is the whole head.
-/

import HttpProxy.Stream.HeadRun
import HttpProxy.Stream.Lookup
import HttpProxy.Stream.Patterns
import HttpProxy.Stream.Rebuild

namespace HttpProxy

open Lib

-- ============================================================================
-- Lines without special bytes
-- ============================================================================

/-- A byte that ends neither a line nor a string, and is no failed read. -/
def plainChar (b : UInt8) : Bool := b ≠ 0 && b ≠ 10 && b ≠ 13 && b ≠ 255

def Plain (s : Bytes) : Prop := ∀ b ∈ s, plainChar b = true

instance (s : Bytes) : Decidable (Plain s) :=
  List.decidableBAll (plainChar · = true) s

section

variable {s t : Bytes} {b : UInt8}

theorem plainChar_iff : plainChar b = true ↔ b ≠ 0 ∧ b ≠ 10 ∧ b ≠ 13 ∧ b ≠ 255 := by
  simp [plainChar, and_assoc]

theorem Plain.nul (h : Plain s) : 0 ∉ s := fun hmem => (plainChar_iff.mp (h 0 hmem)).1 rfl

theorem Plain.ff (h : Plain s) : 255 ∉ s := fun hmem => (plainChar_iff.mp (h 255 hmem)).2.2.2 rfl

theorem Plain.noEol (h : Plain s) : NoEol s := by
  intro b hb
  rw [notEol_iff]
  obtain ⟨_, hlf, hcr, _⟩ := plainChar_iff.mp (h b hb)
  exact ⟨hlf, hcr⟩

theorem plain_append : Plain (s ++ t) ↔ Plain s ∧ Plain t := List.forall_mem_append

theorem scanLine_plain {n : Nat} {rest : Bytes} (h : Plain s) (hlen : s.length < n) :
    scanLine n (s ++ (CRLF ++ rest)) = (.eol, s, rest) := by
  have hline := scanLine_line h.noEol h.ff (.crlf rest) (by simp) hlen
  rw [List.append_assoc] at hline
  exact hline

end

-- ============================================================================
-- Fields
-- ============================================================================

/-- A header field: its name, the blanks behind the colon and its value. -/
structure Field where
  name : Bytes
  blanks : Nat
  value : Bytes
  nameNe : name ≠ []
  nameLt : name.length < HTTP_HEADER_KEY_MAXLEN
  nameChars : ∀ b ∈ name, isAlpha b = true ∨ b = 45
  valueHead : value.head? ≠ some 32
  valuePlain : Plain value

namespace Field

/-- The line of a field. -/
def line (f : Field) : Bytes := f.name ++ ([58] ++ (List.replicate f.blanks 32 ++ f.value))

/-- What is in the buffer of a line that has been parsed. -/
def cell (f : Field) : Bytes := f.name ++ 0 :: (List.replicate f.blanks 32 ++ (f.value ++ [0]))

/-- The entry of a field whose cell starts at `off`. -/
def ent (f : Field) (off : Nat) : NetHeaderEnt where
  key := f.name
  valOffset := off + (f.name.length + 1 + f.blanks)
  behind := []
  terminated _ := rfl

variable (f : Field)

theorem nameChar_eq {b : UInt8} (h : b ∈ f.name) : nameChar b = true := by
  rcases f.nameChars b h with halpha | rfl
  · simp [nameChar, halpha]
  · rfl

theorem plainChar_of_nameChar {b : UInt8} (h : nameChar b = true) : plainChar b = true := by
  rw [plainChar_iff]
  refine ⟨?_, ?_, ?_, ?_⟩ <;> rintro rfl <;> exact absurd h (by decide)

theorem name_plain : Plain f.name := fun _ hb => plainChar_of_nameChar (f.nameChar_eq hb)

theorem line_plain : Plain f.line := by
  have hblanks : Plain (List.replicate f.blanks 32) := by
    intro b hb
    rw [List.eq_of_mem_replicate hb]
    rfl
  have hcolon : Plain [58] := by decide
  exact plain_append.mpr ⟨f.name_plain,
    plain_append.mpr ⟨hcolon, plain_append.mpr ⟨hblanks, f.valuePlain⟩⟩⟩

theorem line_ne_nil : f.line ≠ [] := by
  intro h
  exact f.nameNe (List.append_eq_nil_iff.mp h).1

theorem cell_length : f.cell.length = f.line.length + 1 := by
  simp only [cell, line, List.length_append, List.length_cons, List.length_nil,
    List.length_replicate]
  omega

end Field

/-- The lines of the fields. -/
def fieldText (fs : List Field) : Bytes := fs.flatMap fun f => f.line ++ CRLF

/-- The cells of the fields. -/
def cells (fs : List Field) : Bytes := fs.flatMap Field.cell

/-- The entries of fields whose cells start at `off`. -/
def fieldEnts : Nat → List Field → List NetHeaderEnt
  | _, [] => []
  | off, f :: fs => f.ent off :: fieldEnts (off + f.cell.length) fs

-- ============================================================================
-- net_parse_header
-- ============================================================================

section

variable {data : NetData} {text : Bytes}

theorem addLine_holds {line : Bytes} (h : data.buf.Holds text) :
    (data.addLine line).buf.Holds (text ++ (line ++ [0])) := by
  have hadd := strbufAppend_hold 0 (strbufCat_holds (t := line) h)
  rw [List.append_assoc] at hadd
  exact hadd

/-- `net_parse_header` behind a line of a field that has just been read. -/
theorem netParseHeader_field (f : Field) (h : data.buf.Holds text) :
    ∃ data₁, netParseHeader (data.addLine f.line) data.buf.len = (data₁, 0) ∧
      data₁.buf.Holds (text ++ f.cell) ∧ data₁.table = data.table ++ [f.ent text.length] := by
  have hadd : (data.addLine f.line).buf.Holds (text ++ (f.line ++ [0])) := addLine_holds h
  have hstr : (data.addLine f.line).buf.str data.buf.len = f.line :=
    hadd.str_at h.len f.line_plain.nul
  have hexec := headerPatt_exec f.blanks f.nameNe (fun b hb => f.nameChar_eq hb)
    f.valuePlain.nul f.valueHead
  have hcolon : (data.addLine f.line).buf.Holds
      ((text ++ f.name) ++ 58 :: (List.replicate f.blanks 32 ++ (f.value ++ [0]))) := by
    have heq : (text ++ f.name) ++ 58 :: (List.replicate f.blanks 32 ++ (f.value ++ [0])) =
        text ++ (f.line ++ [0]) := by
      simp [Field.line]
    rw [heq]
    exact hadd
  have hname := hcolon.set (d := 0) (i := data.buf.len + f.name.length)
    (by rw [h.len, List.length_append])
  have hcell : text ++ f.name ++ 0 :: (List.replicate f.blanks 32 ++ (f.value ++ [0])) =
      (text ++ f.name ++ 0 :: (List.replicate f.blanks 32 ++ f.value)) ++ 0 :: [] := by
    simp
  rw [hcell] at hname
  have hvalue := hname.set (d := 0)
    (i := data.buf.len + (f.name.length + 1 + f.blanks + f.value.length)) (by
      rw [h.len]
      simp only [List.length_append, List.length_cons, List.length_replicate]
      omega)
  rw [← hcell, List.append_assoc] at hvalue
  generalize hbuf : ((data.addLine f.line).buf.set (data.buf.len + f.name.length) 0).set
    (data.buf.len + (f.name.length + 1 + f.blanks + f.value.length)) 0 = buf at hvalue
  have hent : NetData.newEnt { data with buf } (buf.str (data.buf.len + 0))
      (data.buf.len + (f.name.length + 1 + f.blanks)) = f.ent text.length := by
    rw [Nat.add_zero, hvalue.str_at h.len f.name_plain.nul, NetData.newEnt_eq f.nameLt, h.len]
    rfl
  subst hbuf
  rw [netParseHeader, hstr, Field.line, hexec]
  exact ⟨_, rfl, hvalue, congrArg (fun e => data.table ++ [e]) hent⟩

/-- The fields of a head are read to their end. -/
theorem headersRead_fields (rest : Bytes) (fs : List Field) (h : data.buf.Holds text)
    (hfits : text.length + (fieldText fs).length + 2 ≤ HTTP_HEADER_MAXLEN) :
    ∃ data', HeadersRead data (fieldText fs ++ (CRLF ++ rest)) data' rest ∧
      data'.buf.Holds (text ++ cells fs) ∧
      data'.table = data.table ++ fieldEnts text.length fs := by
  induction fs generalizing data text with
  | nil =>
      have hscan : scanLine (headRoom data) (CRLF ++ rest) = (.eol, [], rest) := by
        refine scanLine_plain (s := []) (by decide) ?_
        rw [headRoom, h.len, List.length_nil]
        omega
      refine ⟨data, .last hscan, ?_, (List.append_nil _).symm⟩
      rw [cells, List.flatMap_nil, List.append_nil]
      exact h
  | cons f fs ih =>
      have hcell : f.cell.length = f.line.length + 1 := f.cell_length
      have hlen : (fieldText (f :: fs)).length = f.line.length + 2 + (fieldText fs).length := by
        rw [fieldText, List.flatMap_cons, List.length_append, List.length_append]
        rfl
      obtain ⟨data₁, hparse, h₁, htable₁⟩ := netParseHeader_field f h
      obtain ⟨data', hread, h', htable'⟩ := ih h₁ (by rw [List.length_append]; omega)
      refine ⟨data', ?_, ?_, ?_⟩
      · have hscan : scanLine (headRoom data) (fieldText (f :: fs) ++ (CRLF ++ rest)) =
            (.eol, f.line, fieldText fs ++ (CRLF ++ rest)) := by
          rw [fieldText, List.flatMap_cons, List.append_assoc, List.append_assoc]
          refine scanLine_plain f.line_plain ?_
          rw [headRoom, h.len]
          omega
        exact .next hscan f.line_ne_nil hparse hread
      · rw [cells, List.flatMap_cons, ← List.append_assoc]
        exact h'
      · rw [htable', htable₁, List.append_assoc, List.length_append]
        rfl

end

-- ============================================================================
-- Heads
-- ============================================================================

/-- The data holds a start line and the fields of a head; `extra` is what was put behind
    them. -/
structure NetData.HoldsHead (data : NetData) (start : Bytes) (fs : List Field) (extra : Bytes) :
    Prop where
  buf : data.buf.Holds (start ++ 0 :: (cells fs ++ extra))
  table : data.table = fieldEnts (start.length + 1) fs

/-- The bytes of a head. -/
def headText (start : Bytes) (fs : List Field) : Bytes :=
  start ++ (CRLF ++ (fieldText fs ++ CRLF))

/-- A head of a start line and fields is read, whatever follows it. -/
theorem headRead_fields {start : Bytes} (heap : Nat → Bytes) (rest : Bytes) (fs : List Field)
    (hstart : Plain start) (hne : start ≠ [])
    (hfits : (headText start fs).length ≤ HTTP_HEADER_MAXLEN) :
    ∃ data, HeadRead heap (headText start fs ++ rest) data rest ∧ data.HoldsHead start fs [] := by
  have hlen : (headText start fs).length = start.length + 2 + (fieldText fs).length + 2 := by
    rw [headText, List.length_append, List.length_append, List.length_append,
      show CRLF.length = 2 from rfl]
    omega
  have htext : headText start fs ++ rest =
      start ++ (CRLF ++ (fieldText fs ++ (CRLF ++ rest))) := by
    simp only [headText, List.append_assoc]
  have hscan : scanLine (headRoom (netDataInit heap)) (headText start fs ++ rest) =
      (.eol, start, fieldText fs ++ (CRLF ++ rest)) := by
    rw [htext]
    refine scanLine_plain hstart ?_
    rw [headRoom, show (netDataInit heap).buf.len = 0 from rfl]
    omega
  have hinit : (netDataInit heap).buf.Holds [] := strbufInit_holds
  have hadd : ((netDataInit heap).addLine start).buf.Holds (start ++ [0]) := addLine_holds hinit
  obtain ⟨data, hread, hbuf, htable⟩ := headersRead_fields rest fs hadd (by
    rw [List.length_append, List.length_singleton]
    omega)
  refine ⟨data, .lines hscan hne hread, ⟨?_, ?_⟩⟩
  · rw [List.append_assoc] at hbuf
    rw [List.append_nil]
    exact hbuf
  · rw [htable, List.length_append]
    rfl

-- ============================================================================
-- What the table says
-- ============================================================================

/-- The entry names the field and its value. -/
def Names (b : Strbuf) (e : NetHeaderEnt) (f : Field) : Prop :=
  e.key = f.name ∧ b.str e.valOffset = f.value

theorem fieldEnts_names {b : Strbuf} {text extra : Bytes} (fs : List Field)
    (h : b.Holds (text ++ (cells fs ++ extra))) :
    List.Forall₂ (Names b) (fieldEnts text.length fs) fs := by
  induction fs generalizing text with
  | nil => exact .nil
  | cons f fs ih =>
      have hsplit : text ++ (cells (f :: fs) ++ extra) =
          (text ++ f.name ++ 0 :: List.replicate f.blanks 32) ++
            (f.value ++ 0 :: (cells fs ++ extra)) := by
        simp [cells, Field.cell]
      have hnext : text ++ (cells (f :: fs) ++ extra) =
          (text ++ f.cell) ++ (cells fs ++ extra) := by
        simp [cells]
      have hvalue : b.str (f.ent text.length).valOffset = f.value := by
        rw [hsplit] at h
        refine h.str_at ?_ f.valuePlain.nul
        simp only [Field.ent, List.length_append, List.length_cons, List.length_replicate]
        omega
      rw [hnext] at h
      have htail := ih h
      rw [List.length_append] at htail
      exact .cons ⟨rfl, hvalue⟩ htail

theorem NetData.HoldsHead.names {data : NetData} {start extra : Bytes} {fs : List Field}
    (h : data.HoldsHead start fs extra) : List.Forall₂ (Names data.buf) data.table fs := by
  have hbuf := h.buf
  rw [List.append_cons] at hbuf
  have hnames := fieldEnts_names fs hbuf
  rw [List.length_append] at hnames
  rw [h.table]
  exact hnames

section

variable {data : NetData} {fs : List Field}

theorem fieldLine_names {e : NetHeaderEnt} {f : Field} (h : Names data.buf e f) :
    fieldLine data e = f.name ++ bytesOf ": " ++ f.value ++ CRLF := by
  have hkey : e.keyStr = f.name := by
    rw [NetHeaderEnt.keyStr, h.1, if_pos f.nameLt]
  rw [fieldLine, hkey, h.2]

/-- The fields as `net_append_headers` writes them. -/
theorem fieldLines_names (h : List.Forall₂ (Names data.buf) data.table fs) :
    fieldLines data = fs.flatMap (fun f => f.name ++ bytesOf ": " ++ f.value ++ CRLF) ++ CRLF := by
  rw [fieldLines]
  congr 1
  generalize data.table = es at h
  induction h with
  | nil => rfl
  | cons hnames _ ih => rw [List.flatMap_cons, List.flatMap_cons, fieldLine_names hnames, ih]

/-- A lookup finds the value of the field that is met. -/
theorem netDataGetEnt_names (h : List.Forall₂ (Names data.buf) data.table fs) (key : Bytes) :
    netDataGetEnt data key = (fieldFound Field.name fs key).map (·.value) := by
  have hfound : Option.Rel (Names data.buf) (data.findStr key) (fieldFound Field.name fs key) :=
    NetData.findStr_found (fun e f hnames => ⟨hnames.1, f.nameLt⟩) h
  rw [netDataGetEnt, netDataGetEntOffset]
  generalize data.findStr key = x, fieldFound Field.name fs key = y at hfound ⊢
  cases hfound with
  | none => rfl
  | some hnames => exact congrArg some hnames.2

/-- What a lookup may find among fields: the value of one with the name, or nothing where no
    field has it. -/
inductive ValueOf (fs : List Field) (key : Bytes) : Option Bytes → Prop where
  | absent : (∀ f ∈ fs, f.name ≠ key) → ValueOf fs key none
  | present {f : Field} : f ∈ fs → f.name = key → ValueOf fs key (some f.value)

theorem valueOf_found (fs : List Field) (key : Bytes) :
    ValueOf fs key ((fieldFound Field.name fs key).map (·.value)) := by
  cases hfound : fieldFound Field.name fs key with
  | none => exact .absent (fieldFound_none_iff.mp hfound)
  | some f =>
      obtain ⟨hmem, hname⟩ := fieldFound_mem hfound
      exact .present hmem hname

end

end HttpProxy
