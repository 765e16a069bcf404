/-
  HttpProxy.Parse.FieldName

  Header fields from the line to the table and back.  The class of `header_patt` has
  no digits and no underscore, and a key has room for 31 characters and its NUL, so not
  every field name of HTTP survives: a name of 32 characters fills the array, and whether
  it is found and what is forwarded for it is up to the bytes behind, longer ones are cut.
  And an entry that makes uthash expand the table comes behind those that have had its
  name before.  `faithful_iff` says which fields are taken as they are.
-/

import HttpProxy.Parse.Fetched
import HttpProxy.Stream.Rebuild

namespace HttpProxy

open Lib.Regex

-- ============================================================================
-- Fields of HTTP
-- ============================================================================

/-- A character of a token: a letter, a digit or one of fifteen other characters. -/
def tokenChar (b : UInt8) : Bool :=
  isAlpha b || isDigit b ||
    [33, 35, 36, 37, 38, 39, 42, 43, 45, 46, 94, 95, 96, 124, 126].contains b

/-- A character of a field value: a blank, a visible character or a high byte. -/
def valueChar (b : UInt8) : Bool := 32 ≤ b && b ≤ 126 || 128 ≤ b

/-- The line of a field. -/
def headerLine (name value : Bytes) : Bytes := name ++ (bytesOf ": " ++ value)

/-- A value without its leading blanks. -/
def trimBlanks (value : Bytes) : Bytes := value.dropWhile (· = 32)

/-- `net_parse_header` takes the field as it is: the new entry has its name and its value, the
    name finds the value, and the entry is forwarded as it came. -/
def Faithful (data : NetData) (name value : Bytes) : Prop :=
  ∃ data' e, netParseHeader (data.addLine (headerLine name value)) data.buf.len = (data', 0) ∧
    data'.table = data.table ++ [e] ∧ e.key = name ∧
    data'.buf.str e.valOffset = trimBlanks value ∧
    netDataGetEnt data' name = some (trimBlanks value) ∧
    fieldLine data' e = name ++ bytesOf ": " ++ trimBlanks value ++ CRLF

/-- The values of the table are strings of the buffer. -/
def NetData.ValuesIn (data : NetData) : Prop :=
  ∀ e ∈ data.table, ∃ v, data.buf.StrAt e.valOffset v ∧ e.valOffset + v.length < data.buf.len

/-- Where the value of the field will stand in the buffer. -/
def NetData.valueOffset (data : NetData) (name value : Bytes) : Nat :=
  data.buf.len + ((headerLine name value).length - (trimBlanks value).length)

/-- The name reads as it is from the array of its key: a name of 32 characters leaves no room
    for the NUL, and runs on into the bytes of the value offset. -/
def NetData.Reads (data : NetData) (name value : Bytes) : Prop :=
  name.length < HTTP_HEADER_KEY_MAXLEN ∨
    name.length = HTTP_HEADER_KEY_MAXLEN ∧ data.valueOffset name value % 256 = 0

/-- The hash key of the entry of this name: for a name that fills the array it has what the
    memory holds behind. -/
def NetData.newKey (data : NetData) (name : Bytes) : Bytes := (data.newEnt name 0).hashKey

/-- The name finds this value once its entry is in the table.  An entry whose hash key is the
    name is the one that is met if the table is not expanded for it or no entry has the name;
    else the one that then comes to the front of its chain has to have the value as well.  An
    entry whose hash key is another one is not met at all, so that an earlier one has to be. -/
def NetData.Meets (data : NetData) (name value : Bytes) : Prop :=
  if data.newKey name = name then
    data.expands name = true → ∀ e ∈ data.findLast name, data.buf.str e.valOffset = value
  else
    ∃ e ∈ (if data.expands (data.newKey name) then data.findLast name else data.findStr name),
      data.buf.str e.valOffset = value

section

variable {data : NetData} {name value : Bytes} {b : UInt8}

/-- Of the characters of a token only letters and the hyphen are in the class of `header_patt`. -/
theorem nameChar_token (hname : nameChar b = true) (htoken : tokenChar b = true) :
    isAlpha b = true ∨ b = 45 := by
  simp only [nameChar, Bool.or_eq_true, decide_eq_true_eq] at hname
  rcases hname with (halpha | rfl) | rfl
  · exact .inl halpha
  · exact absurd htoken (by decide)
  · exact .inr rfl

-- ============================================================================
-- Names that are not taken
-- ============================================================================

/-- A key that was stored consists of characters of the class. -/
theorem Faithful.nameChars (hbuf : data.buf.Sound) (h : Faithful data name value) :
    ∀ x ∈ name, nameChar x = true := by
  obtain ⟨data', e, hparse, htable, hkey, -⟩ := h
  obtain ⟨pre, name', blanks, value', -, -, hname', -, hdata⟩ := netParseHeader_inv hbuf hparse
  have htables := hdata.table
  rw [htable, List.append_cancel_left_eq, List.cons.injEq] at htables
  intro x hx
  rw [← hkey, htables.1] at hx
  exact hname' x (List.mem_of_mem_take hx)

-- ============================================================================
-- Entries that are met
-- ============================================================================

theorem NetData.newEnt_hashKey (off : Nat) : (data.newEnt name off).hashKey = data.newKey name :=
  rfl

/-- What a lookup of the name gives once its entry has been added. -/
theorem netDataGetEnt_add {data' : NetData} {off : Nat} {v : Bytes} (hents : data.ValuesIn)
    (htable : data'.table = data.table ++ [data.newEnt name off]) (hvalue : data'.buf.str off = v)
    (hframe : ∀ off s, data.buf.StrAt off s → off + s.length < data.buf.len →
      data'.buf.StrAt off s) :
    netDataGetEnt data' name = some v ↔ data.Meets name v := by
  have hold {e : NetHeaderEnt} (he : e ∈ data.table) :
      data'.buf.str e.valOffset = data.buf.str e.valOffset := by
    obtain ⟨s, hs, hin⟩ := hents e he
    rw [(hframe _ s hs hin).str, hs.str]
  rw [netDataGetEnt, netDataGetEntOffset, NetData.Meets]
  by_cases hkey : data.newKey name = name
  · have hhas : (data.newEnt name off).hasKey name = true := NetHeaderEnt.hasKey_eq.mpr hkey
    rw [NetData.findStr_add htable hhas, if_pos hkey]
    cases hexpands : data.expands name with
    | false => simp [NetData.newEnt, NetHeaderEnt.ofKey, hvalue]
    | true =>
        rw [if_pos rfl]
        cases hlast : data.findLast name with
        | none => simp [NetData.newEnt, NetHeaderEnt.ofKey, hvalue]
        | some x => simp [hold (NetData.findLast_mem hlast)]
  · have hhas : (data.newEnt name off).hasKey name = false :=
      Bool.eq_false_iff.mpr fun h => hkey (NetHeaderEnt.hasKey_eq.mp h)
    rw [NetData.findStr_add_other htable hhas, NetData.newEnt_hashKey, if_neg hkey]
    have hmem {e : NetHeaderEnt}
        (he : (if data.expands (data.newKey name) then data.findLast name
          else data.findStr name) = some e) : e ∈ data.table := by
      split at he
      · exact NetData.findLast_mem he
      · exact (NetData.findStr_mem he).1
    cases hfound : (if data.expands (data.newKey name) then data.findLast name
        else data.findStr name) with
    | none => simp
    | some x => simp [hold (hmem hfound)]

-- ============================================================================
-- Names that read as they are
-- ============================================================================

/-- A key that fills its array reads as it is exactly when the byte behind is zero. -/
theorem NetHeaderEnt.keyStr_eq_iff {e : NetHeaderEnt} (hkey : e.key = name)
    (hfull : ¬ name.length < HTTP_HEADER_KEY_MAXLEN) :
    e.keyStr = name ↔ e.valOffset % 256 = 0 := by
  have hbyte : UInt8.ofNat e.valOffset = 0 ↔ e.valOffset % 256 = 0 := by
    rw [← UInt8.toNat_inj]
    simp
  rw [keyStr, hkey, if_neg hfull]
  constructor
  · intro h
    have hnil := List.append_right_eq_self.mp h
    rw [List.takeWhile_cons] at hnil
    split at hnil
    · exact absurd hnil (List.cons_ne_nil _ _)
    · rename_i hzero
      rw [decide_eq_true_eq, not_not] at hzero
      exact hbyte.mp hzero
  · intro h
    rw [List.takeWhile_cons_of_neg (by simp [hbyte.mpr h]), List.append_nil]

/-- The entry of the name has it as its key, and is forwarded with it. -/
theorem NetData.reads_iff :
    (data.newEnt name (data.valueOffset name value)).key = name ∧
      (data.newEnt name (data.valueOffset name value)).keyStr = name ↔ data.Reads name value := by
  have hmax : HTTP_HEADER_KEY_MAXLEN = 32 := rfl
  have hkey : (data.newEnt name (data.valueOffset name value)).key = name ↔
      name.length ≤ HTTP_HEADER_KEY_MAXLEN := by
    refine ⟨fun h => ?_, List.take_of_length_le⟩
    have hlen := congrArg List.length h
    simp only [NetData.newEnt, NetHeaderEnt.ofKey, List.length_take] at hlen
    omega
  by_cases hlt : name.length < HTTP_HEADER_KEY_MAXLEN
  · have hself := hkey.mpr (Nat.le_of_lt hlt)
    refine ⟨fun _ => .inl hlt, fun _ => ⟨hself, ?_⟩⟩
    rw [NetHeaderEnt.keyStr, hself, if_pos hlt]
  · constructor
    · rintro ⟨hself, hstr⟩
      have hle := hkey.mp hself
      exact .inr ⟨by omega, (NetHeaderEnt.keyStr_eq_iff hself hlt).mp hstr⟩
    · intro h
      obtain ⟨heq, hzero⟩ := h.resolve_left hlt
      have hself := hkey.mpr (Nat.le_of_eq heq)
      exact ⟨hself, (NetHeaderEnt.keyStr_eq_iff hself hlt).mpr hzero⟩

-- ============================================================================
-- Names that are taken
-- ============================================================================

theorem trimBlanks_split (value : Bytes) :
    ∃ k, value = List.replicate k 32 ++ trimBlanks value ∧ (trimBlanks value).head? ≠ some 32 := by
  refine ⟨(value.takeWhile (· = 32)).length, ?_, fun hhead => ?_⟩
  · have hblanks : value.takeWhile (· = 32) =
        List.replicate (value.takeWhile (· = 32)).length 32 := by
      rw [List.eq_replicate_iff]
      exact ⟨rfl, fun b hb => by simpa using List.mem_takeWhile_imp hb⟩
    rw [← hblanks]
    exact (List.takeWhile_append_dropWhile ..).symm
  · have hnot := List.head?_dropWhile_not (fun b : UInt8 => decide (b = 32)) value
    rw [← trimBlanks, hhead] at hnot
    exact absurd hnot (by decide)

/-- A line of a name over the class, a colon, blanks and a value. -/
theorem netParseHeader_line {hdr v : Bytes} (hbuf : data.buf.Sound) (k : Nat) (hne : name ≠ [])
    (hname : ∀ x ∈ name, nameChar x = true) (hhead : v.head? ≠ some 32)
    (hstr : lineStr hdr = name ++ ([58] ++ (List.replicate k 32 ++ v))) :
    ∃ data', netParseHeader (data.addLine hdr) data.buf.len = (data', 0) ∧
      HeaderParsed data data' [] name (List.replicate k 32) v := by
  have hv : 0 ∉ v := by
    intro hmem
    apply lineStr_nul hdr
    rw [hstr]
    simp [hmem]
  have hexec := headerPatt_exec k hne hname hv hhead
  have hall : name.length + 1 + k + v.length =
      (name ++ ([58] ++ (List.replicate k 32 ++ v))).length := by
    simp only [List.length_append, List.length_singleton, List.length_replicate]
    omega
  apply netParseHeader_found hbuf hstr
  rw [hstr, hexec, hall]
  simp only [List.length_nil, Nat.zero_add, List.length_replicate]

/-- The entry of a field whose name is over the class. -/
theorem netParseHeader_newEnt (hbuf : data.buf.Sound) (hne : name ≠ [])
    (hname : ∀ x ∈ name, nameChar x = true) (hvalue : 0 ∉ value) :
    ∃ data', netParseHeader (data.addLine (headerLine name value)) data.buf.len = (data', 0) ∧
      data'.table = data.table ++ [data.newEnt name (data.valueOffset name value)] ∧
      data'.buf.str (data.valueOffset name value) = trimBlanks value ∧
      ∀ off s, data.buf.StrAt off s → off + s.length < data.buf.len → data'.buf.StrAt off s := by
  obtain ⟨k, hsplit, hhead⟩ := trimBlanks_split value
  have hline : headerLine name value =
      name ++ ([58] ++ (List.replicate (k + 1) 32 ++ trimBlanks value)) := by
    rw [List.replicate_succ, show [58] ++ (32 :: List.replicate k 32 ++ trimBlanks value) =
      bytesOf ": " ++ (List.replicate k 32 ++ trimBlanks value) from rfl, ← hsplit, headerLine]
  have hnul : 0 ∉ headerLine name value := by
    simp only [headerLine, List.mem_append, not_or]
    exact ⟨fun hmem => absurd (hname 0 hmem) (by decide), by decide, hvalue⟩
  obtain ⟨data', hparse, hdata⟩ := netParseHeader_line hbuf (k + 1) hne hname hhead
    ((lineStr_eq hnul).trans hline)
  have hoff : data.buf.len +
      (([] : Bytes).length + name.length + 1 + (List.replicate (k + 1) (32 : UInt8)).length) =
      data.valueOffset name value := by
    rw [NetData.valueOffset, hline]
    simp only [List.length_append, List.length_singleton, List.length_replicate, List.length_nil]
    omega
  have htable := hdata.table
  have hvalueAt := hdata.valueAt.str
  rw [hoff] at htable hvalueAt
  exact ⟨data', hparse, htable, hvalueAt, hdata.frame⟩

-- ============================================================================
-- Exactly the names over letters and the hyphen
-- ============================================================================

/-- A field of HTTP goes through the table unchanged exactly when its name consists of letters
    and hyphens, reads from the array of its key as it is, and its value is the one that is
    met. -/
theorem faithful_iff (hbuf : data.buf.Sound) (hents : data.ValuesIn) (hne : name ≠ [])
    (hname : ∀ b ∈ name, tokenChar b = true) (hvalue : ∀ b ∈ value, valueChar b = true) :
    Faithful data name value ↔
      (∀ b ∈ name, isAlpha b = true ∨ b = 45) ∧ data.Reads name value ∧
        data.Meets name (trimBlanks value) := by
  have hnul : 0 ∉ value := fun hmem => absurd (hvalue 0 hmem) (by decide)
  constructor
  · intro h
    have hclass := h.nameChars hbuf
    obtain ⟨data', hparse, htable, hvalueAt, hframe⟩ :=
      netParseHeader_newEnt hbuf hne hclass hnul
    obtain ⟨data'', e, hparse', htable', hkey, hstr, hlookup, hforward⟩ := h
    obtain ⟨rfl, -⟩ := Prod.mk.inj (hparse.symm.trans hparse')
    rw [htable, List.append_cancel_left_eq, List.cons.injEq] at htable'
    obtain ⟨rfl, -⟩ := htable'
    refine ⟨fun b hb => nameChar_token (hclass b hb) (hname b hb), ?_, ?_⟩
    · rw [fieldLine, hstr] at hforward
      simp only [List.append_assoc] at hforward
      exact NetData.reads_iff.mp ⟨hkey, List.append_cancel_right hforward⟩
    · exact (netDataGetEnt_add hents htable hvalueAt hframe).mp hlookup
  · rintro ⟨hletters, hreads, hmeets⟩
    have hclass : ∀ b ∈ name, nameChar b = true := by
      intro b hb
      rcases hletters b hb with halpha | rfl
      · simp [nameChar, halpha]
      · decide
    obtain ⟨data', hparse, htable, hvalueAt, hframe⟩ :=
      netParseHeader_newEnt hbuf hne hclass hnul
    obtain ⟨hkey, hstr⟩ := NetData.reads_iff.mpr hreads
    refine ⟨data', _, hparse, htable, hkey, hvalueAt, ?_, ?_⟩
    · exact (netDataGetEnt_add hents htable hvalueAt hframe).mpr hmeets
    · rw [fieldLine, hstr]
      exact congrArg (name ++ bytesOf ": " ++ · ++ CRLF) hvalueAt

/-- "Connection: keep-alive" is taken. -/
theorem faithful_connection :
    Faithful (netDataInit zeroHeap) (bytesOf "Connection") (bytesOf "keep-alive") := by
  apply (faithful_iff strbufInit_holds.sound (fun _ he => absurd he List.not_mem_nil) (by decide)
    (by simp [bytesOf, tokenChar, isAlpha, isUpper, isLower])
    (by simp [bytesOf, valueChar])).mpr
  refine ⟨by simp [bytesOf, isAlpha, isUpper, isLower], .inl (by decide), ?_⟩
  rw [NetData.Meets, if_pos (by decide)]
  exact fun hexpands => absurd hexpands (by decide)

/-- "Content-MD5: x" is not. -/
theorem not_faithful_md5 :
    ¬ ∀ (data : NetData) (name value : Bytes), data.buf.Sound → data.ValuesIn → name ≠ [] →
      (∀ b ∈ name, tokenChar b = true) → (∀ b ∈ value, valueChar b = true) →
      Faithful data name value := by
  intro h
  have hmd5 := h (netDataInit zeroHeap) (bytesOf "Content-MD5") (bytesOf "x") strbufInit_holds.sound
    (fun _ he => absurd he List.not_mem_nil) (by decide)
    (by simp [bytesOf, tokenChar, isAlpha, isDigit, isUpper, isLower])
    (by simp [bytesOf, valueChar])
  exact absurd (hmd5.nameChars strbufInit_holds.sound 53 (by decide)) (by decide)

end

end HttpProxy
