/-
  HttpProxy.Parse.Forwarded

  The header block net_http_req_handler sends for a request, next to the fields it has
  received.  net_parse_req cuts up the buffer the values are in, and a Host field that
  is added takes its value from there: `fieldsForwarded_iff` says when the server is
  sent the fields as they came, and the authority of the URI as the host.
-/

import HttpProxy.Parse.FieldName
import HttpProxy.Parse.Target
import HttpProxy.Stream.Request

namespace HttpProxy

open Lib.Regex

-- ============================================================================
-- Received fields
-- ============================================================================

/-- A name of 1 to 31 letters and hyphens. -/
def SimpleName (name : Bytes) : Prop :=
  name ≠ [] ∧ name.length ≤ 31 ∧ ∀ x ∈ name, isAlpha x = true ∨ x = 45

/-- The data behind a start line and lines of fields with simple names; a field is its name and
    its value without leading blanks. -/
inductive Received (line : Bytes) : List (Bytes × Bytes) → NetData → Prop where
  | start {heap : Nat → Bytes} : Received line [] ((netDataInit heap).addLine line)
  | field {fs : List (Bytes × Bytes)} {data data' : NetData} {name text : Bytes} :
      Received line fs data → SimpleName name →
      netParseHeader (data.addLine (name ++ ([58] ++ text))) data.buf.len = (data', 0) →
      Received line (fs ++ [(name, trimBlanks text)]) data'

/-- The entry of a field, whose value is a C string in the buffer. -/
structure EntOf (data : NetData) (e : NetHeaderEnt) (f : Bytes × Bytes) : Prop where
  key : e.key = f.1
  simple : SimpleName f.1
  value : data.buf.StrAt e.valOffset (lineStr f.2)
  within : e.valOffset + (lineStr f.2).length < data.buf.len

section

variable {line : Bytes} {data data' : NetData} {fs : List (Bytes × Bytes)} {name text : Bytes}

theorem SimpleName.nameChar (h : SimpleName name) : ∀ x ∈ name, nameChar x = true := by
  intro x hx
  rcases h.2.2 x hx with halpha | rfl
  · simp [HttpProxy.nameChar, halpha]
  · decide

theorem SimpleName.nul (h : SimpleName name) : 0 ∉ name := fun hmem =>
  absurd (h.nameChar 0 hmem) (by decide)

theorem Received.fetched (h : Received line fs data) : Fetched line data := by
  induction h with
  | start => exact .start
  | field _ _ hparse ih => exact .header ih hparse

/-- A string that begins with characters other than NUL. -/
theorem lineStr_append {s : Bytes} (hs : 0 ∉ s) (t : Bytes) :
    lineStr (s ++ t) = s ++ lineStr t := by
  apply List.takeWhile_append_of_pos
  intro b hb
  rw [decide_eq_true_eq]
  rintro rfl
  exact hs hb

theorem lineStr_head {v : Bytes} {x : UInt8} (h : (lineStr v).head? = some x) :
    v.head? = some x := by
  cases v with
  | nil => exact absurd h (by simp [lineStr])
  | cons b v =>
      by_cases hb : b = 0
      · rw [hb, lineStr, List.takeWhile_cons_of_neg (by simp)] at h
        exact absurd h (by simp)
      · rw [lineStr, List.takeWhile_cons_of_pos (by simpa using hb)] at h
        exact h

/-- The line of a field with a simple name is accepted. -/
theorem netParseHeader_simple (hbuf : data.buf.Sound) (hname : SimpleName name) (text : Bytes) :
    ∃ k data', netParseHeader (data.addLine (name ++ ([58] ++ text))) data.buf.len = (data', 0) ∧
      HeaderParsed data data' [] name (List.replicate k 32) (lineStr (trimBlanks text)) := by
  obtain ⟨k, hsplit, hhead⟩ := trimBlanks_split text
  generalize trimBlanks text = v at hsplit hhead ⊢
  have hblanks : 0 ∉ List.replicate k (32 : UInt8) := fun hmem =>
    absurd (List.eq_of_mem_replicate hmem) (by decide)
  have hstr : lineStr (name ++ ([58] ++ text)) =
      name ++ ([58] ++ (List.replicate k 32 ++ lineStr v)) := by
    rw [lineStr_append hname.nul, lineStr_append (by decide), hsplit, lineStr_append hblanks]
  exact ⟨k, netParseHeader_line hbuf k hname.1 hname.nameChar
    (fun h => hhead (lineStr_head h)) hstr⟩

/-- The line of a field is parsed into an entry of its name and its value. -/
theorem EntOf.parsed (hbuf : data.buf.Sound) (hname : SimpleName name)
    (hparse : netParseHeader (data.addLine (name ++ ([58] ++ text))) data.buf.len = (data', 0)) :
    ∃ e, data'.table = data.table ++ [e] ∧ EntOf data' e (name, trimBlanks text) ∧
      data.buf.len ≤ e.valOffset ∧ data.buf.len ≤ data'.buf.len ∧
      ∀ off s, data.buf.StrAt off s → off + s.length < data.buf.len → data'.buf.StrAt off s := by
  obtain ⟨k, data₁, hparse₁, hdata⟩ := netParseHeader_simple hbuf hname text
  rw [hparse] at hparse₁
  obtain ⟨rfl, -⟩ := Prod.mk.inj hparse₁
  have hkey : name.take HTTP_HEADER_KEY_MAXLEN = name := by
    apply List.take_of_length_le
    have hlen := hname.2.1
    have hmax : HTTP_HEADER_KEY_MAXLEN = 32 := rfl
    omega
  have hlen := hdata.len
  exact ⟨_, hdata.table, ⟨hkey, hname, hdata.valueAt, hlen⟩, Nat.le_add_right _ _, by omega,
    hdata.frame⟩

/-- Another field can always be received. -/
theorem Received.next (h : Received line fs data) (hname : SimpleName name) (text : Bytes) :
    ∃ data', Received line (fs ++ [(name, trimBlanks text)]) data' := by
  obtain ⟨_, data', hparse, -⟩ := netParseHeader_simple h.fetched.sound hname text
  exact ⟨data', .field h hname hparse⟩

/-- The string of an entry and its NUL are in front of another one. -/
def InFront (data : NetData) (e e' : NetHeaderEnt) : Prop :=
  e.valOffset + (data.buf.str e.valOffset).length < e'.valOffset

/-- Every field has its entry, in the order of the lines. -/
theorem Received.entries (h : Received line fs data) :
    List.Forall₂ (EntOf data) data.table fs ∧ data.table.Pairwise (InFront data) := by
  induction h with
  | start => exact ⟨.nil, .nil⟩
  | @field fs data data' name text hdata hname hparse ih =>
      obtain ⟨hents, hpairs⟩ := ih
      obtain ⟨e, htable, hent, hoff, hlen, hframe⟩ := EntOf.parsed hdata.fetched.sound hname hparse
      have hkept : ∀ e' f, EntOf data e' f → EntOf data' e' f := fun e' f h =>
        ⟨h.key, h.simple, hframe _ _ h.value h.within, Nat.lt_of_lt_of_le h.within hlen⟩
      have hstr : ∀ e' ∈ data.table, data'.buf.str e'.valOffset = data.buf.str e'.valOffset ∧
          e'.valOffset + (data.buf.str e'.valOffset).length < data.buf.len := by
        intro e' he'
        obtain ⟨-, v, hv, hin⟩ := hdata.fetched.entry he'
        rw [(hframe _ v hv hin).str, hv.str]
        exact ⟨rfl, hin⟩
      rw [htable]
      refine ⟨List.rel_append (hents.imp hkept) (.cons hent .nil), ?_⟩
      rw [List.pairwise_append]
      refine ⟨?_, List.pairwise_singleton _ _, fun e₁ he₁ e₂ he₂ => ?_⟩
      · refine hpairs.imp_of_mem fun he₁ _ hfront => ?_
        rw [InFront, (hstr _ he₁).1]
        exact hfront
      · rw [List.mem_singleton] at he₂
        rw [InFront, (hstr e₁ he₁).1, he₂]
        have hin := (hstr e₁ he₁).2
        omega

-- ============================================================================
-- The block
-- ============================================================================

/-- The lines of fields and the blank line. -/
def fieldsText (fs : List (Bytes × Bytes)) : Bytes :=
  fs.flatMap (fun f => f.1 ++ bytesOf ": " ++ f.2 ++ CRLF) ++ CRLF

/-- The entry has the name and the value of a field. -/
def Shows (data : NetData) (e : NetHeaderEnt) (f : Bytes × Bytes) : Prop :=
  e.key = f.1 ∧ SimpleName f.1 ∧ data.buf.str e.valOffset = f.2

theorem Shows.fieldLine_eq {e : NetHeaderEnt} {f : Bytes × Bytes} (h : Shows data e f) :
    fieldLine data e = f.1 ++ bytesOf ": " ++ f.2 ++ CRLF := by
  obtain ⟨hkey, hsimple, hvalue⟩ := h
  have hlen : e.key.length < HTTP_HEADER_KEY_MAXLEN := by
    have hle := hsimple.2.1
    have hmax : HTTP_HEADER_KEY_MAXLEN = 32 := rfl
    rw [hkey]
    omega
  rw [fieldLine, NetHeaderEnt.keyStr, if_pos hlen, hkey, hvalue]

/-- The fields the table shows are those that are sent. -/
theorem fieldLines_shows (h : List.Forall₂ (Shows data) data.table fs) :
    fieldLines data = fieldsText fs := by
  rw [fieldLines, fieldsText]
  congr 1
  generalize data.table = es at h
  induction h with
  | nil => rfl
  | cons hshows _ ih => rw [List.flatMap_cons, List.flatMap_cons, hshows.fieldLine_eq, ih]

/-- A block whose values are C strings has no NUL. -/
theorem fieldsText_nul :
    0 ∉ fieldsText fs ↔ ∀ f ∈ fs, 0 ∉ f.1 ∧ 0 ∉ f.2 := by
  have hcolon : (0 : UInt8) ∉ bytesOf ": " := by decide
  have hcrlf : (0 : UInt8) ∉ CRLF := by decide
  simp only [fieldsText, List.mem_append, List.mem_flatMap, not_or, not_exists, not_and]
  constructor
  · rintro ⟨hfs, -⟩ f hf
    obtain ⟨⟨⟨hname, -⟩, hvalue⟩, -⟩ := hfs f hf
    exact ⟨hname, hvalue⟩
  · intro hfs
    exact ⟨fun f hf => ⟨⟨⟨(hfs f hf).1, hcolon⟩, (hfs f hf).2⟩, hcrlf⟩, hcrlf⟩

theorem fieldsText_append (fs gs : List (Bytes × Bytes)) :
    fieldsText (fs ++ gs) =
      fs.flatMap (fun f => f.1 ++ bytesOf ": " ++ f.2 ++ CRLF) ++ fieldsText gs := by
  rw [fieldsText, fieldsText, List.flatMap_append, List.append_assoc]

/-- A field is told from another value by its line. -/
theorem fieldsText_one {name v w : Bytes} :
    fieldsText [(name, v)] = fieldsText [(name, w)] ↔ v = w := by
  simp only [fieldsText, List.flatMap_cons, List.flatMap_nil, List.append_nil, List.append_assoc,
    List.append_cancel_left_eq, List.append_cancel_right_eq]

theorem fieldsText_one_ne {f : Bytes × Bytes} : fieldsText [f] ≠ fieldsText [] := by
  intro heq
  have hlen := congrArg List.length heq
  simp only [fieldsText, List.flatMap_cons, List.flatMap_nil, List.append_nil, List.length_append,
    List.length_nil, show (bytesOf ": ").length = 2 from rfl, show CRLF.length = 2 from rfl] at hlen
  omega

-- ============================================================================
-- Hosts
-- ============================================================================

/-- A host, a colon and a digit are in front. -/
def HasPort (v : Bytes) : Prop :=
  ∃ host d rest, v = host ++ (58 :: d :: rest) ∧ host ≠ [] ∧ (∀ x ∈ host, hostChar x = true) ∧
    isDigit d = true

/-- A port is found exactly where there is one. -/
theorem HostShape.hasPort_iff {host rest : Bytes} {port : Option Bytes}
    (h : HostShape host port rest) : HasPort (host ++ (portText port ++ rest)) ↔ port ≠ none := by
  constructor
  · rintro ⟨host', d, rest', htext, hne, hchars, hd⟩ rfl
    -- the digits behind the colon would be a port
    have hsplit : d :: rest' = (d :: rest').takeWhile isDigit ++ (d :: rest').dropWhile isDigit :=
      (List.takeWhile_append_dropWhile ..).symm
    have hdigits : Digits ((d :: rest').takeWhile isDigit) := by
      refine ⟨?_, fun x hx => List.mem_takeWhile_imp hx⟩
      rw [List.takeWhile_cons_of_pos hd]
      exact List.cons_ne_nil _ _
    have hstop : ∀ x ∈ ((d :: rest').dropWhile isDigit).head?, isDigit x = false := by
      intro x hx
      have hnot := List.head?_dropWhile_not isDigit (d :: rest')
      rw [hx] at hnot
      simpa using hnot
    rw [hsplit] at htext
    exact absurd (hostShape_unique h (.port hne hchars hdigits hstop) htext).2.1 (by simp)
  · intro hport
    cases h with
    | noPort => exact absurd rfl hport
    | port hne hchars hdigits hrest =>
        obtain ⟨d, ds, rfl⟩ := List.exists_cons_of_ne_nil hdigits.1
        exact ⟨host, d, ds ++ rest, rfl, hne, hchars, hdigits.2 d List.mem_cons_self⟩

/-- The port of a URI is in its authority. -/
theorem UriShape.hasPort_iff {scheme auth path host rest : Bytes} {port : Option Bytes}
    (huri : UriShape scheme auth path) (hhost : HostShape host port rest)
    (htext : auth ++ path = host ++ (portText port ++ rest)) : HasPort auth ↔ port ≠ none := by
  rw [← hhost.hasPort_iff, ← htext]
  constructor
  · rintro ⟨host', d, rest', rfl, hne, hchars, hd⟩
    exact ⟨host', d, rest' ++ path, by simp, hne, hchars, hd⟩
  · rintro ⟨host', d, rest', heq, hne, hchars, hd⟩
    -- neither the colon nor the digit is the slash the path begins with
    rcases List.append_eq_append_iff.mp heq with ⟨t, rfl, hpath⟩ | ⟨t, rfl, htail⟩
    · cases t with
      | nil =>
          have hslash : (58 : UInt8) = 47 := huri.pathHead 58 (by rw [hpath]; rfl)
          exact absurd hslash (by decide)
      | cons x t =>
          have hslash : x = 47 := huri.pathHead x (by rw [hpath]; rfl)
          have hchar := hchars x (by simp)
          rw [hslash] at hchar
          exact absurd hchar (by decide)
    · cases t with
      | nil =>
          have hslash : (58 : UInt8) = 47 :=
            huri.pathHead 58 (by rw [← List.nil_append path, ← htail]; rfl)
          exact absurd hslash (by decide)
      | cons x t =>
          rw [List.cons_append, List.cons.injEq] at htail
          obtain ⟨rfl, htail⟩ := htail
          cases t with
          | nil =>
              have hslash : d = 47 := huri.pathHead d (by rw [← List.nil_append path, ← htail]; rfl)
              rw [hslash] at hd
              exact absurd hd (by decide)
          | cons y t =>
              rw [List.cons_append, List.cons.injEq] at htail
              obtain ⟨rfl, -⟩ := htail
              exact ⟨host', d, t, rfl, hne, hchars, hd⟩

/-- What `net_parse_req` takes for the host of an absolute URI is its authority. -/
theorem UriShape.host_eq_auth {scheme auth path host rest : Bytes} {port : Option Bytes}
    (huri : UriShape scheme auth path) (hhost : HostShape host port rest)
    (htext : auth ++ path = host ++ (portText port ++ rest)) :
    (if port = none ∧ ¬ (auth = host ∧ path ≠ []) then host ++ rest else host) = auth ↔
      ¬ HasPort auth ∧ ((∀ x ∈ auth, hostChar x = true) ∨ path = []) := by
  rw [huri.hasPort_iff hhost htext]
  cases port with
  | some p =>
      have hne : host ≠ auth := by
        rintro rfl
        exact absurd (path_not_port huri hhost htext rfl).2 (by simp)
      simp [hne]
  | none =>
      rw [portText, List.nil_append] at htext
      by_cases hnil : path = []
      · rw [hnil, List.append_nil] at htext
        simp [hnil, htext]
      · by_cases hauth : auth = host
        · simp only [hauth, hnil, true_and, ne_eq, not_false_eq_true, not_true_eq_false, if_false,
            or_false, true_iff]
          exact hhost.hostChars
        · have hlong : auth ++ path ≠ auth := fun heq => hnil (List.append_right_eq_self.mp heq)
          have hother : ¬ ∀ x ∈ auth, hostChar x = true := by
            intro hchars
            have hport : PortOk none := fun p hp => absurd hp (by simp)
            have hshape := hostShape_path huri.authNe hchars hport huri.pathHead
            exact hauth (hostShape_unique hshape hhost htext).1
          simp only [true_and, hauth, false_and, not_false_eq_true, if_true, ← htext, hlong, hnil,
            or_false, ne_eq, not_true_eq_false, hother]

-- ============================================================================
-- What is sent
-- ============================================================================

/-- The values of fields as C strings. -/
def strings (fs : List (Bytes × Bytes)) : List (Bytes × Bytes) := fs.map fun f => (f.1, lineStr f.2)

theorem strings_eq (h : ∀ f ∈ fs, 0 ∉ f.2) : strings fs = fs := by
  have hsame : ∀ f ∈ fs, ((f.1, lineStr f.2) : Bytes × Bytes) = f := fun f hf => by
    rw [lineStr_eq (h f hf)]
  rw [strings, List.map_congr_left hsame, List.map_id']

theorem shows_strings {es : List NetHeaderEnt}
    (h : List.Forall₂ (fun e f => e.key = f.1 ∧ SimpleName f.1 ∧
      data.buf.str e.valOffset = lineStr f.2) es fs) :
    List.Forall₂ (Shows data) es (strings fs) :=
  List.forall₂_map_right_iff.mpr h

/-- A lookup finds nothing where no field has the name. -/
theorem getEnt_none_iff {es : List NetHeaderEnt} (h : List.Forall₂ (Shows data) es fs)
    (key : Bytes) :
    (∀ e ∈ es, ¬ e.hasKey key = true) ↔ ∀ f ∈ fs, f.1 ≠ key := by
  induction h with
  | nil => simp
  | @cons e f es fs hshows _ ih =>
      have hhas : e.hasKey key = true ↔ f.1 = key := by
        have hle := hshows.2.1.2.1
        have hmax : HTTP_HEADER_KEY_MAXLEN = 32 := rfl
        have hlt : e.key.length < HTTP_HEADER_KEY_MAXLEN := by
          rw [hshows.1]
          omega
        rw [NetHeaderEnt.hasKey_eq, NetHeaderEnt.hashKey_short hlt, hshows.1]
      rw [List.forall_mem_cons, List.forall_mem_cons, ih, hhas]

theorem netDataGetEnt_shows (h : List.Forall₂ (Shows data) data.table fs) (key : Bytes) :
    netDataGetEnt data key = none ↔ ∀ f ∈ fs, f.1 ≠ key := by
  rw [← getEnt_none_iff h key, netDataGetEnt_none_iff]
  simp only [Bool.not_eq_true]

/-- The request line that is sent. -/
def startText (req : NetReq) : Bytes :=
  req.data.buf.str 0 ++ [32] ++ req.data.buf.str req.path ++ [32] ++ bytesOf "HTTP/" ++
    sprintfD req.verMajor ++ [46] ++ sprintfD req.verMinor ++ CRLF

variable {req : NetReq}

/-- A Host field is added once. -/
theorem hostField_again (req : NetReq) : hostField (hostField req) = hostField req := by
  by_cases hnone : netDataGetEnt req.data (bytesOf "Host") = none
  · have hadd : hostField req =
        { req with data := netDataSetEntOffset req.data (bytesOf "Host") req.host } := if_pos hnone
    have hsome : netDataGetEnt (hostField req).data (bytesOf "Host") ≠ none := by
      have hlt : (bytesOf "Host").length < HTTP_HEADER_KEY_MAXLEN := by decide
      rw [hadd]
      exact netDataGetEnt_add_ne_none rfl ((NetHeaderEnt.hasKey_iff hlt).mpr rfl)
    exact if_neg hsome
  · have hsame : hostField req = req := if_neg hnone
    rw [hsame, hsame]

theorem hostField_iterate (req : NetReq) (n : Nat) : hostField^[n + 1] req = hostField req := by
  induction n with
  | zero => rfl
  | succ n ih => rw [Function.iterate_succ_apply', ih, hostField_again]

/-- An attempt adds the Host field to the request and sends its head; the next one goes on with
    what this one has left. -/
theorem gotServer_hostField {l : Local} {j : ReqIx} (s : ConnIx)
    (hkind : (l.cl.mem.reqs j).kind = .http) :
    (l.gotServer j s).cl.forwarding =
        some (j, s, (reqHeader (hostField (l.cl.mem.reqs j).req)).content) ∧
      ((l.gotServer j s).cl.mem.reqs j).req = hostField (l.cl.mem.reqs j).req := by
  have hfield (req : NetReq) : { req with
      data := if netDataGetEnt req.data (bytesOf "Host") = none then
        netDataSetEntOffset req.data (bytesOf "Host") req.host else req.data } = hostField req := by
    unfold hostField
    split <;> rfl
  have hstate : (l.gotServer j s).cl.req =
      .io (.forward j s (reqHeader (hostField (l.cl.mem.reqs j).req)).content)
        (connWrite .server (reqHeader (hostField (l.cl.mem.reqs j).req)).content) ∧
      (l.gotServer j s).cl.mem =
        l.cl.mem.setReq j fun r => { r with req := hostField (l.cl.mem.reqs j).req } := by
    unfold Local.gotServer
    rw [hkind, ← hfield]
    exact ⟨rfl, rfl⟩
  obtain ⟨hreq, hmem⟩ := hstate
  rw [Client.forwarding, hreq, hmem]
  simp [Mem.setReq]

/-- What is sent with each attempt. -/
theorem reqHeader_hostField (req : NetReq) (n : Nat) :
    (reqHeader (hostField^[n + 1] req)).content =
      startText req ++ fieldLines (hostField req).data := by
  rw [hostField_iterate, (reqHeader_holds (hostField req)).raw.content, reqHead, startText]
  unfold hostField
  split <;> rfl

/-- The table with a Host field that was missing. -/
theorem hostField_shows (h : List.Forall₂ (Shows req.data) req.data.table fs)
    (hnone : ∀ f ∈ fs, f.1 ≠ bytesOf "Host") :
    fieldLines (hostField req).data =
      fieldsText (fs ++ [(bytesOf "Host", req.data.buf.str req.host)]) := by
  have hadd : hostField req =
      { req with data := netDataSetEntOffset req.data (bytesOf "Host") req.host } :=
    if_pos ((netDataGetEnt_shows h _).mpr hnone)
  have hsimple : SimpleName (bytesOf "Host") :=
    ⟨by decide, by decide, by simp [bytesOf, isAlpha, isUpper, isLower]⟩
  have hall : List.Forall₂ (Shows (netDataSetEntOffset req.data (bytesOf "Host") req.host))
      (netDataSetEntOffset req.data (bytesOf "Host") req.host).table
      (fs ++ [(bytesOf "Host", req.data.buf.str req.host)]) :=
    List.rel_append h (.cons ⟨rfl, hsimple, rfl⟩ .nil)
  rw [hadd]
  exact fieldLines_shows hall

theorem hostField_present (h : List.Forall₂ (Shows req.data) req.data.table fs)
    (hsome : ∃ f ∈ fs, f.1 = bytesOf "Host") :
    fieldLines (hostField req).data = fieldsText fs := by
  have hne : ¬ netDataGetEnt req.data (bytesOf "Host") = none := by
    rw [netDataGetEnt_shows h]
    intro hnone
    obtain ⟨f, hf, hname⟩ := hsome
    exact hnone f hf hname
  rw [show hostField req = req from if_neg hne]
  exact fieldLines_shows h

end

-- ============================================================================
-- The forms of a request
-- ============================================================================

/-- A request other than CONNECT has an absolute URI, with an authority and a path, or a path
    alone. -/
inductive UriForm where
  | absolute (auth path : Bytes)
  | origin

/-- The start line has this form. -/
inductive StartLine (line : Bytes) : UriForm → Prop where
  | absolute {method scheme auth path a b : Bytes} :
      lineStr line = requestLine method (uriText scheme auth path) a b →
      RequestShape method (uriText scheme auth path) a b → method ≠ bytesOf "CONNECT" →
      UriShape scheme auth path → StartLine line (.absolute auth path)
  | origin {method uri a b : Bytes} : lineStr line = requestLine method uri a b →
      RequestShape method uri a b → method ≠ bytesOf "CONNECT" → exec uriPatt uri = none →
      StartLine line .origin

def lowerChar (b : UInt8) : UInt8 := if isUpper b then b + 32 else b

/-- The name is Host, in upper or lower case. -/
def isHost (name : Bytes) : Bool := name.map lowerChar = bytesOf "host"

/-- The fields the server is to be sent: those received, and the authority where none of them is
    a Host field. -/
def UriForm.sent (form : UriForm) (fs : List (Bytes × Bytes)) : List (Bytes × Bytes) :=
  match form with
  | .absolute auth _ => if fs.any (isHost ·.1) then fs else fs ++ [(bytesOf "Host", auth)]
  | .origin => fs

/-- Every attempt to forward the request sends these fields. -/
def FieldsForwarded (form : UriForm) (fs : List (Bytes × Bytes)) (req : NetReq) : Prop :=
  ∀ n, (reqHeader (hostField^[n + 1] req)).content = startText req ++ fieldsText (form.sent fs)

/-- No value has a NUL; behind an absolute URI a field is named exactly Host, or none is in any
    case and the authority is a host without a port, or has no port and no path behind it; behind
    a path the Host field that a lookup meets has no port. -/
def UriForm.Intact (form : UriForm) (fs : List (Bytes × Bytes)) : Prop :=
  (∀ f ∈ fs, 0 ∉ f.2) ∧
    match form with
    | .absolute auth path =>
        (∃ f ∈ fs, f.1 = bytesOf "Host") ∨
          (∀ f ∈ fs, isHost f.1 = false) ∧ ¬ HasPort auth ∧
            ((∀ x ∈ auth, hostChar x = true) ∨ path = [])
    | .origin => ∀ f, fieldFound Prod.fst fs (bytesOf "Host") = some f → ¬ HasPort f.2

section

variable {line : Bytes} {data : NetData} {fs : List (Bytes × Bytes)} {req : NetReq} {form : UriForm}

theorem fieldsForwarded_iff_block :
    FieldsForwarded form fs req ↔
      fieldLines (hostField req).data = fieldsText (form.sent fs) := by
  simp only [FieldsForwarded, reqHeader_hostField, List.append_cancel_left_eq, forall_const]

theorem mem_sent {f : Bytes × Bytes} (hf : f ∈ fs) : f ∈ form.sent fs := by
  cases form with
  | origin => exact hf
  | absolute auth path =>
      rw [UriForm.sent]
      split
      · exact hf
      · exact List.mem_append_left _ hf

theorem str_nul (b : Strbuf) (off : Nat) : 0 ∉ b.str off := by
  intro hmem
  have hne := List.mem_takeWhile_imp hmem
  simp at hne

/-- What is sent has no NUL, so where it is what was received, that has none, either. -/
theorem nul_of_sent {gs : List (Bytes × Bytes)} (hgs : ∀ g ∈ gs, 0 ∉ g.1 ∧ 0 ∉ g.2)
    (heq : fieldsText gs = fieldsText (form.sent fs)) : ∀ f ∈ fs, 0 ∉ f.2 := by
  have hnul := fieldsText_nul.mpr hgs
  rw [heq] at hnul
  exact fun f hf => (fieldsText_nul.mp hnul f (mem_sent hf)).2

-- ============================================================================
-- Absolute URIs
-- ============================================================================

theorem isHost_host : isHost (bytesOf "Host") = true := by decide

/-- Behind an absolute URI every value is kept, and what is taken for the host is known. -/
theorem absolute_shows {method scheme auth path a b : Bytes} (h : Received line fs data)
    (hline : lineStr line = requestLine method (uriText scheme auth path) a b)
    (hshape : RequestShape method (uriText scheme auth path) a b)
    (hconnect : method ≠ bytesOf "CONNECT") (huri : UriShape scheme auth path)
    (hreq : netParseReq (netReqInit data) = (req, 0)) :
    List.Forall₂ (Shows req.data) req.data.table (strings fs) ∧
      ∃ host port rest, auth ++ path = host ++ (portText port ++ rest) ∧ HostShape host port rest ∧
        req.data.buf.str req.host =
          if port = none ∧ ¬ (auth = host ∧ path ≠ []) then host ++ rest else host := by
  have hfetched := h.fetched
  rcases hostShape_total (auth ++ path) with hhead | ⟨host, port, rest, htext, hhost⟩
  · rw [List.head?_append_of_ne_nil _ huri.authNe] at hhead
    obtain ⟨r, hr⟩ := authority_refused hfetched (.absolute hline hshape hconnect huri) hhead
    rw [hreq] at hr
    exact absurd (Prod.mk.inj hr).2 (by decide)
  · obtain ⟨req', hreq', hparsed, -, hframe⟩ :=
      parse_absolute hfetched hline hshape hconnect huri htext hhost
    obtain ⟨rfl, -⟩ := Prod.mk.inj (hreq.symm.trans hreq')
    refine ⟨?_, host, port, rest, htext, hhost, hparsed.hostAt.str⟩
    rw [hparsed.table]
    apply shows_strings
    refine List.forall₂_iff_zip.mpr ⟨h.entries.1.length_eq, fun {e f} hmem => ?_⟩
    have hent : EntOf data e f := List.forall₂_zip h.entries.1 hmem
    have hoff := (hfetched.entry (List.of_mem_zip hmem).1).1
    exact ⟨hent.key, hent.simple, (hframe _ _ hent.value hent.within hoff).str⟩

theorem shows_simple {es : List NetHeaderEnt} (h : List.Forall₂ (Shows data) es fs) :
    ∀ f ∈ fs, SimpleName f.1 := by
  induction h with
  | nil => exact List.forall_mem_nil _
  | cons hshows _ ih => exact List.forall_mem_cons.mpr ⟨hshows.2.1, ih⟩

theorem strings_clean {es : List NetHeaderEnt} (h : List.Forall₂ (Shows data) es (strings fs)) :
    ∀ g ∈ strings fs, 0 ∉ g.1 ∧ 0 ∉ g.2 := by
  intro g hg
  refine ⟨(shows_simple h g hg).nul, ?_⟩
  obtain ⟨f, -, rfl⟩ := List.mem_map.mp hg
  exact lineStr_nul f.2

theorem strings_name {name : Bytes} :
    (∃ g ∈ strings fs, g.1 = name) ↔ ∃ f ∈ fs, f.1 = name := by
  simp [strings]

/-- Behind an absolute URI the fields are sent as they came exactly when the condition says so. -/
theorem absolute_forwarded {scheme auth path host rest : Bytes} {port : Option Bytes}
    (huri : UriShape scheme auth path)
    (hshows : List.Forall₂ (Shows req.data) req.data.table (strings fs))
    (htext : auth ++ path = host ++ (portText port ++ rest)) (hhost : HostShape host port rest)
    (hstr : req.data.buf.str req.host =
      if port = none ∧ ¬ (auth = host ∧ path ≠ []) then host ++ rest else host) :
    fieldLines (hostField req).data = fieldsText ((UriForm.absolute auth path).sent fs) ↔
      (UriForm.absolute auth path).Intact fs := by
  have hclean := strings_clean hshows
  by_cases hpresent : ∃ f ∈ fs, f.1 = bytesOf "Host"
  · have hany : fs.any (isHost ·.1) = true := by
      obtain ⟨f, hf, hname⟩ := hpresent
      rw [List.any_eq_true]
      exact ⟨f, hf, by rw [hname, isHost_host]⟩
    have hsent : (UriForm.absolute auth path).sent fs = fs := if_pos hany
    rw [hostField_present hshows (strings_name.mpr hpresent)]
    constructor
    · intro heq
      exact ⟨nul_of_sent hclean heq, .inl hpresent⟩
    · rintro ⟨hnul, -⟩
      rw [strings_eq hnul, hsent]
  · have hmissing : ∀ g ∈ strings fs, g.1 ≠ bytesOf "Host" := fun g hg hname =>
      hpresent (strings_name.mp ⟨g, hg, hname⟩)
    have hadded : ∀ g ∈ strings fs ++ [(bytesOf "Host", req.data.buf.str req.host)],
        0 ∉ g.1 ∧ 0 ∉ g.2 := by
      intro g hg
      rcases List.mem_append.mp hg with hg | hg
      · exact hclean g hg
      · rw [List.mem_singleton.mp hg]
        exact ⟨show (0 : UInt8) ∉ bytesOf "Host" by decide, str_nul _ _⟩
    rw [hostField_shows hshows hmissing]
    constructor
    · intro heq
      have hnul := nul_of_sent hadded heq
      refine ⟨hnul, .inr ?_⟩
      rw [strings_eq hnul, UriForm.sent] at heq
      split at heq
      · -- a second Host field
        rw [fieldsText_append] at heq
        have hnone : fieldsText fs =
            fs.flatMap (fun f => f.1 ++ bytesOf ": " ++ f.2 ++ CRLF) ++ fieldsText [] := by
          rw [← fieldsText_append, List.append_nil]
        rw [hnone, List.append_cancel_left_eq] at heq
        exact absurd heq fieldsText_one_ne
      · rename_i hany
        rw [fieldsText_append, fieldsText_append, List.append_cancel_left_eq, fieldsText_one,
          hstr] at heq
        refine ⟨fun f hf => ?_, (huri.host_eq_auth hhost htext).mp heq⟩
        rw [Bool.not_eq_true, List.any_eq_false] at hany
        simpa using hany f hf
    · rintro ⟨hnul, hcond⟩
      obtain ⟨hother, hauth⟩ := hcond.resolve_left hpresent
      have hany : ¬ fs.any (isHost ·.1) = true := by
        rw [Bool.not_eq_true, List.any_eq_false]
        intro f hf
        rw [hother f hf]
        exact Bool.false_ne_true
      have hsent : (UriForm.absolute auth path).sent fs = fs ++ [(bytesOf "Host", auth)] :=
        if_neg hany
      rw [strings_eq hnul, hsent, hstr, (huri.host_eq_auth hhost htext).mpr hauth]

-- ============================================================================
-- Paths
-- ============================================================================

/-- Two strings of the table do not overlap. -/
theorem apart {es : List NetHeaderEnt} {e e' : NetHeaderEnt} (h : es.Pairwise (InFront data))
    (he : e ∈ es) (he' : e' ∈ es) (hne : e ≠ e') : InFront data e e' ∨ InFront data e' e := by
  induction h with
  | nil => exact absurd he List.not_mem_nil
  | cons hfirst _ ih =>
      rcases List.mem_cons.mp he with rfl | hin
      · exact .inl (hfirst e' ((List.mem_cons.mp he').resolve_left (Ne.symm hne)))
      · rcases List.mem_cons.mp he' with rfl | hin'
        · exact .inr (hfirst e hin)
        · exact ih hin hin'

/-- Where a value has been cut the block is shorter. -/
theorem fieldLines_shorter {off : Nat} {gs : List (Bytes × Bytes)}
    (h : List.Forall₂ (fun e g => e.key = g.1 ∧ SimpleName g.1 ∧
      (data.buf.str e.valOffset).length + (if e.valOffset = off then 1 else 0) ≤ g.2.length)
      data.table gs) :
    (fieldLines data).length + data.table.countP (·.valOffset = off) ≤ (fieldsText gs).length := by
  rw [fieldLines, fieldsText, List.length_append, List.length_append]
  generalize data.table = es at h
  induction h with
  | nil => simp
  | @cons e g es gs hcut _ ih =>
      obtain ⟨hkey, hsimple, hlen⟩ := hcut
      have hshort : e.key.length < HTTP_HEADER_KEY_MAXLEN := by
        have hle := hsimple.2.1
        have hmax : HTTP_HEADER_KEY_MAXLEN = 32 := rfl
        rw [hkey]
        omega
      rw [List.flatMap_cons, List.flatMap_cons, List.length_append, List.length_append,
        List.countP_cons, fieldLine, NetHeaderEnt.keyStr, if_pos hshort, hkey]
      simp only [List.length_append, decide_eq_true_eq]
      omega

/-- The entry that is found is that of the field that is met. -/
theorem found_entry (h : List.Forall₂ (EntOf data) data.table fs) {key : Bytes} {e : NetHeaderEnt}
    (he : data.findStr key = some e) :
    ∃ f, fieldFound Prod.fst fs key = some f ∧ EntOf data e f := by
  have hfound : Option.Rel (EntOf data) (data.findStr key) (fieldFound Prod.fst fs key) := by
    refine NetData.findStr_found (fun e f hent => ⟨hent.key, ?_⟩) h
    have hle := hent.simple.2.1
    have hmax : HTTP_HEADER_KEY_MAXLEN = 32 := rfl
    omega
  rw [he] at hfound
  generalize fieldFound Prod.fst fs key = x at hfound ⊢
  cases hfound with
  | some hent => exact ⟨_, rfl, hent⟩

/-- The values of the table of `req` are those of `fs`, but for a value at `off` that is cut at
    the length of `host`; so what is sent is shorter. -/
theorem cut_shorter {off : Nat} {host v : Bytes} (hents : List.Forall₂ (EntOf data) data.table fs)
    (hpairs : data.table.Pairwise (InFront data))
    (hback : ∀ e ∈ data.table, line.length < e.valOffset)
    (htable : req.data.table = data.table) {e : NetHeaderEnt} (he : e ∈ data.table)
    (hoff : e.valOffset = off) (hv : data.buf.str off = v) (hlt : host.length < v.length)
    (hcut : req.data.buf.str off = host)
    (hframe : ∀ off' s, data.buf.StrAt off' s → line.length < off' →
      (off' + s.length < off + host.length ∨ off + host.length < off') →
      req.data.buf.StrAt off' s) :
    (fieldLines req.data).length < (fieldsText (strings fs)).length := by
  have hshorter : List.Forall₂ (fun e g => e.key = g.1 ∧ SimpleName g.1 ∧
      (req.data.buf.str e.valOffset).length + (if e.valOffset = off then 1 else 0) ≤ g.2.length)
      req.data.table (strings fs) := by
    rw [htable]
    refine List.forall₂_map_right_iff.mpr
      (List.forall₂_iff_zip.mpr ⟨hents.length_eq, fun {e' f'} hzip => ?_⟩)
    have hent : EntOf data e' f' := List.forall₂_zip hents hzip
    have he' := (List.of_mem_zip hzip).1
    refine ⟨hent.key, hent.simple, ?_⟩
    show _ ≤ (lineStr f'.2).length
    by_cases hsame : e'.valOffset = off
    · rw [if_pos hsame, ← hent.value.str, hsame, hcut, hv]
      exact hlt
    · have hother : e' ≠ e := fun heq => hsame (heq ▸ hoff)
      have hstr := hent.value.str
      have hout : e'.valOffset + (lineStr f'.2).length < off + host.length ∨
          off + host.length < e'.valOffset := by
        rcases apart hpairs he' he hother with hfront | hfront
        · rw [InFront, hstr, hoff] at hfront
          exact .inl (by omega)
        · rw [InFront, hoff, hv] at hfront
          exact .inr (by omega)
      rw [if_neg hsame, (hframe _ _ hent.value (hback e' he') hout).str]
      exact Nat.le_refl _
  have hlen := fieldLines_shorter hshorter
  have hcount : 0 < req.data.table.countP (·.valOffset = off) := by
    rw [List.countP_pos_iff, htable]
    exact ⟨e, he, decide_eq_true hoff⟩
  omega

theorem ents_simple {es : List NetHeaderEnt} (h : List.Forall₂ (EntOf data) es fs) :
    ∀ e ∈ es, SimpleName e.key := by
  induction h with
  | nil => exact List.forall_mem_nil _
  | cons hent _ ih => exact List.forall_mem_cons.mpr ⟨hent.key ▸ hent.simple, ih⟩

/-- What is sent has no NUL. -/
theorem fieldLines_nul (h : ∀ e ∈ data.table, SimpleName e.key) : 0 ∉ fieldLines data := by
  have hshows : List.Forall₂ (Shows data) data.table
      (data.table.map fun e => (e.key, data.buf.str e.valOffset)) :=
    List.forall₂_map_right_iff.mpr (List.forall₂_same.mpr fun e he => ⟨rfl, h e he, rfl⟩)
  rw [fieldLines_shows hshows, fieldsText_nul]
  intro g hg
  obtain ⟨e, he, rfl⟩ := List.mem_map.mp hg
  exact ⟨(h e he).nul, str_nul _ _⟩

/-- Behind a path the value of the Host field that is met is cut at its port. -/
theorem origin_forwarded {method uri a b : Bytes} (h : Received line fs data)
    (hline : lineStr line = requestLine method uri a b) (hshape : RequestShape method uri a b)
    (hconnect : method ≠ bytesOf "CONNECT") (huri : exec uriPatt uri = none)
    (hreq : netParseReq (netReqInit data) = (req, 0)) :
    fieldLines (hostField req).data = fieldsText (UriForm.origin.sent fs) ↔
      UriForm.origin.Intact fs := by
  have hfetched := h.fetched
  obtain ⟨hents, hpairs⟩ := h.entries
  cases hoff : netDataGetEntOffset data (bytesOf "Host") with
  | none =>
      obtain ⟨req₁, -, heq⟩ := origin_host hfetched hline hshape hconnect huri
      rw [hoff, hreq] at heq
      exact absurd (Prod.mk.inj heq).2 (by decide)
  | some off =>
    obtain ⟨e, he, rfl⟩ := Option.map_eq_some_iff.mp hoff
    have hmem := (NetData.findStr_mem he).1
    obtain ⟨f, hf, hent⟩ := found_entry hents he
    have hfmem : f ∈ fs := (fieldFound_mem hf).1
    have hvalue := hent.value.str
    rcases hostShape_total (lineStr f.2) with hhead | ⟨host, port, rest, htext, hhost⟩
    · have hfield : netDataGetEnt data (bytesOf "Host") = some (lineStr f.2) := by
        rw [netDataGetEnt, hoff, Option.map_some, hvalue]
      obtain ⟨r, hr⟩ :=
        authority_refused hfetched (.origin hline hshape hconnect huri hfield) hhead
      rw [hreq] at hr
      exact absurd (Prod.mk.inj hr).2 (by decide)
    · obtain ⟨req', hreq', hparsed, -, hhostOff, hframe⟩ := parse_origin hfetched hline hshape
        hconnect huri hoff (hvalue.trans htext) hhost
      obtain ⟨rfl, -⟩ := Prod.mk.inj (hreq.symm.trans hreq')
      have hports : (∀ f ∈ fs, 0 ∉ f.2) → (HasPort f.2 ↔ port ≠ none) := fun hnul => by
        rw [← hhost.hasPort_iff, ← htext, lineStr_eq (hnul f hfmem)]
      have hpresent : netDataGetEnt req.data (bytesOf "Host") ≠ none := by
        rw [netDataGetEnt, netDataGetEntOffset_table hparsed.table, hoff]
        simp
      rw [show hostField req = req from if_neg hpresent]
      cases port with
      | none =>
          have hshows : List.Forall₂ (Shows req.data) req.data.table (strings fs) := by
            rw [hparsed.table]
            apply shows_strings
            refine List.forall₂_iff_zip.mpr ⟨hents.length_eq, fun {e' f'} hzip => ?_⟩
            have hent' : EntOf data e' f' := List.forall₂_zip hents hzip
            have hback := (hfetched.entry (List.of_mem_zip hzip).1).1
            exact ⟨hent'.key, hent'.simple, (hframe _ _ hent'.value hback (.inl rfl)).str⟩
          rw [fieldLines_shows hshows]
          constructor
          · intro heq
            have hnul := nul_of_sent (strings_clean hshows) heq
            refine ⟨hnul, fun f' hf' hport => ?_⟩
            rw [hf, Option.some.injEq] at hf'
            exact (hports hnul).mp (hf' ▸ hport) rfl
          · rintro ⟨hnul, -⟩
            rw [strings_eq hnul]
            rfl
      | some p =>
          have hlt : host.length < (lineStr f.2).length := by
            rw [htext, portText, List.length_append, List.length_append, List.length_cons]
            omega
          have hcut : req.data.buf.str e.valOffset = host := by
            rw [← hhostOff, hparsed.hostAt.str, if_neg (by simp)]
          have hshorter :=
            cut_shorter hents hpairs (fun e he => (hfetched.entry he).1) hparsed.table
            hmem rfl hvalue hlt hcut fun off' s hs hback hout => hframe off' s hs hback (.inr hout)
          have hkeys : ∀ e ∈ req.data.table, SimpleName e.key := by
            rw [hparsed.table]
            exact ents_simple hents
          constructor
          · intro heq
            have hclean := fieldLines_nul hkeys
            rw [heq] at hclean
            have hnul : ∀ f ∈ fs, 0 ∉ f.2 := fun f hf => (fieldsText_nul.mp hclean f hf).2
            rw [strings_eq hnul, heq] at hshorter
            exact absurd hshorter (Nat.lt_irrefl _)
          · rintro ⟨hnul, hport⟩
            exact absurd ((hports hnul).mpr (by simp)) (hport f hf)

-- ============================================================================
-- Every form
-- ============================================================================

/-- With every attempt the server is sent the received fields as they came, and the authority of
    the URI as the host where there was no Host field, exactly when the request is intact. -/
theorem fieldsForwarded_iff (h : Received line fs data) (hform : StartLine line form)
    (hreq : netParseReq (netReqInit data) = (req, 0)) :
    FieldsForwarded form fs req ↔ form.Intact fs := by
  rw [fieldsForwarded_iff_block]
  cases hform with
  | absolute hline hshape hconnect huri =>
      obtain ⟨hshows, host, port, rest, htext, hhost, hstr⟩ :=
        absolute_shows h hline hshape hconnect huri hreq
      exact absolute_forwarded huri hshows htext hhost hstr
  | origin hline hshape hconnect huri =>
      exact origin_forwarded h hline hshape hconnect huri hreq

end

-- ============================================================================
-- Two lines
-- ============================================================================

/-- A line with an absolute URI for the host "a" and the path "/". -/
def absoluteLine (port : Option Bytes) : Bytes :=
  requestLine (bytesOf "GET")
    (uriText (bytesOf "http") (bytesOf "a" ++ portText port) (bytesOf "/"))
    (bytesOf "1") (bytesOf "1")

section

variable {port : Option Bytes}

theorem absoluteLine_uri (hport : PortOk port) :
    UriShape (bytesOf "http") (bytesOf "a" ++ portText port) (bytesOf "/") where
  schemeNe := by decide
  schemeLower := by simp [bytesOf, isLower]
  authNe := List.append_ne_nil_of_left_ne_nil (by decide) _
  authChars := authority_char (by simp [bytesOf, hostChar, isAlpha, isUpper, isLower]) hport
  pathHead := fun _ hx => (Option.some.inj hx).symm
  pathNul := by decide

theorem absoluteLine_shape (hport : PortOk port) :
    RequestShape (bytesOf "GET")
      (uriText (bytesOf "http") (bytesOf "a" ++ portText port) (bytesOf "/")) (bytesOf "1")
      (bytesOf "1") where
  methodNe := by decide
  methodAlpha := by simp [bytesOf, isAlpha, isUpper, isLower]
  uriNe := List.append_ne_nil_of_left_ne_nil (by decide) _
  uriNul := by
    have hauth : 0 ∉ bytesOf "a" ++ portText port := fun hmem =>
      absurd ((absoluteLine_uri hport).authChars 0 hmem) (by decide)
    simp only [uriText, List.mem_append, not_or] at hauth ⊢
    exact ⟨by decide, by decide, hauth, by decide⟩
  major := ⟨by decide, by simp [bytesOf, isDigit]⟩
  minor := ⟨by decide, by simp [bytesOf, isDigit]⟩

theorem absoluteLine_str (hport : PortOk port) :
    lineStr (absoluteLine port) = absoluteLine port := by
  apply lineStr_eq
  simp only [absoluteLine, requestLine, List.mem_append, not_or]
  exact ⟨by decide, by decide, (absoluteLine_shape hport).uriNul, by decide, by decide, by decide,
    by decide⟩

theorem absoluteLine_accepted {data : NetData} (h : Fetched (absoluteLine port) data)
    (hport : PortOk port) : ∃ req, netParseReq (netReqInit data) = (req, 0) := by
  have hshape := absoluteLine_shape hport
  have huri := absoluteLine_uri hport
  obtain ⟨req, hreq, -⟩ := recover_absolute h (absoluteLine_str hport) hshape.methodNe
    hshape.methodAlpha (by decide) huri.schemeNe huri.schemeLower (by decide)
    (by simp [bytesOf, hostChar, isAlpha, isUpper, isLower]) hport huri.pathHead hshape.major
    hshape.minor
  exact ⟨req, hreq⟩

end

/-- "GET http://a/ HTTP/1.1" with the fields "Accept: b" and "Host: a" is forwarded with both. -/
theorem fieldsForwarded_plain : ∃ (data : NetData) (req : NetReq),
    Received (absoluteLine none)
      [(bytesOf "Accept", bytesOf "b"), (bytesOf "Host", bytesOf "a")] data ∧
    netParseReq (netReqInit data) = (req, 0) ∧
    FieldsForwarded (.absolute (bytesOf "a" ++ portText none) (bytesOf "/"))
      [(bytesOf "Accept", bytesOf "b"), (bytesOf "Host", bytesOf "a")] req := by
  have hport : PortOk none := fun p hp => absurd hp (by simp)
  have haccept : SimpleName (bytesOf "Accept") :=
    ⟨by decide, by decide, by simp [bytesOf, isAlpha, isUpper, isLower]⟩
  have hhost : SimpleName (bytesOf "Host") :=
    ⟨by decide, by decide, by simp [bytesOf, isAlpha, isUpper, isLower]⟩
  have hstart : Received (absoluteLine none) [] ((netDataInit zeroHeap).addLine _) := .start
  obtain ⟨data₁, h₁⟩ := hstart.next haccept (bytesOf " b")
  obtain ⟨data, h⟩ := h₁.next hhost (bytesOf " a")
  obtain ⟨req, hreq⟩ := absoluteLine_accepted h.fetched hport
  have hform : StartLine (absoluteLine none)
      (.absolute (bytesOf "a" ++ portText none) (bytesOf "/")) :=
    .absolute (absoluteLine_str hport) (absoluteLine_shape hport) (by decide)
      (absoluteLine_uri hport)
  refine ⟨data, req, h, hreq, (fieldsForwarded_iff h hform hreq).mpr ⟨by decide, .inl ?_⟩⟩
  exact ⟨(bytesOf "Host", bytesOf "a"), by decide, rfl⟩

/-- "GET http://a:81/ HTTP/1.1" is forwarded with "Host: a". -/
theorem not_fieldsForwarded :
    ¬ ∀ (line : Bytes) (fs : List (Bytes × Bytes)) (data : NetData) (form : UriForm) (req : NetReq),
      Received line fs data → StartLine line form → netParseReq (netReqInit data) = (req, 0) →
        FieldsForwarded form fs req := by
  intro h
  have hport : PortOk (some (bytesOf "81")) := by
    rintro p ⟨⟩
    exact ⟨⟨by decide, by simp [bytesOf, isDigit]⟩, by decide⟩
  have hline := absoluteLine_str hport
  have hshape := absoluteLine_shape hport
  have huri := absoluteLine_uri hport
  have hfetched : Fetched (absoluteLine (some (bytesOf "81")))
      ((netDataInit zeroHeap).addLine _) := .start
  obtain ⟨req, hreq⟩ := absoluteLine_accepted hfetched hport
  have hforwarded := h _ _ _ _ _ .start (.absolute hline hshape (by decide) huri) hreq
  rw [fieldsForwarded_iff_block] at hforwarded
  obtain ⟨hshows, host, port, rest, htext, hhost, hstr⟩ :=
    absolute_shows .start hline hshape (by decide) huri hreq
  obtain ⟨-, hcond⟩ := (absolute_forwarded huri hshows htext hhost hstr).mp hforwarded
  rcases hcond with ⟨f, hf, -⟩ | ⟨-, hnone, -⟩
  · exact absurd hf List.not_mem_nil
  · exact hnone ⟨bytesOf "a", 56, bytesOf "1", rfl, by decide,
      by simp [bytesOf, hostChar, isAlpha, isUpper, isLower], by decide⟩

end HttpProxy
