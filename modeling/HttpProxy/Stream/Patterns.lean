/-
  HttpProxy.Stream.Patterns

  The groups regexec finds in well-formed lines: `headerPatt_exec` for a header field
  and `rspPatt_exec` for a status line.
-/

import HttpProxy.Core.NetData
import HttpProxy.Lib.Match
import HttpProxy.Stream.Number

namespace HttpProxy

open Lib.Regex

-- ============================================================================
-- Characters
-- ============================================================================

theorem isDigit_ne {b : UInt8} (h : isDigit b = true) : b ≠ 46 ∧ b ≠ 32 := by
  constructor <;> rintro rfl <;> exact absurd h (by decide)

theorem anyChar_iff {b : UInt8} : anyChar b = true ↔ b ≠ 0 := by
  simp [anyChar]

-- ============================================================================
-- Header fields
-- ============================================================================

section

variable {name value : Bytes}

/-- `.*$` takes the rest of the line. -/
theorem cat_rest (i min pos : Nat) (c : Caps) (hmin : min ≤ value.length) (hvalue : 0 ∉ value) :
    cat [group i (rep min anyChar), eol] ⟨value, pos, c⟩ =
      [⟨[], pos + value.length, (i, pos, pos + value.length) :: c⟩] := by
  have hany : ∀ b ∈ value, anyChar b = true := by
    intro b hb
    rw [anyChar_iff]
    rintro rfl
    exact hvalue hb
  exact cat_group_eol hmin hany

/-- A header field: the name, the colon, `k` blanks and the value. -/
theorem headerPatt_exec (k : Nat) (hne : name ≠ []) (hname : ∀ b ∈ name, nameChar b = true)
    (hvalue : 0 ∉ value) (hhead : value.head? ≠ some 32) :
    exec headerPatt (name ++ ([58] ++ (List.replicate k 32 ++ value))) =
      some [(0, 0, name.length + 1 + k + value.length),
        (2, name.length + 1 + k, name.length + 1 + k + value.length), (1, 0, name.length)] := by
  have hpos : 1 ≤ name.length := List.length_pos_iff.mpr hne
  have hblank : ∀ b ∈ List.replicate k (32 : UInt8), decide (b = 32) = true := by
    intro b hb
    rw [List.eq_of_mem_replicate hb]
    rfl
  have hstop : ∀ b ∈ value.head?, decide (b = 32) = false := by
    intro b hb
    rw [decide_eq_false_iff_not]
    rintro rfl
    exact hhead hb
  have hrest : longest (headerPatt ⟨name ++ ([58] ++ (List.replicate k 32 ++ value)), 0, []⟩) =
      some ⟨[], name.length + 1 + k + value.length,
        [(2, name.length + 1 + k, name.length + 1 + k + value.length), (1, 0, name.length)]⟩ := by
    rw [headerPatt, cat_group_run hpos hname (by simp [nameChar, isAlpha, isUpper, isLower])]
    · rw [show bytesOf ":" = [58] from rfl, cat_lit]
      have hlongest := longest_rep [group 2 (rep 0 anyChar), eol] (0 + name.length + 1)
        [(1, 0, 0 + name.length)]
        (fun j => ⟨[], name.length + 1 + k + value.length,
          [(2, name.length + 1 + j, name.length + 1 + k + value.length), (1, 0, name.length)]⟩)
        hblank hstop (fun j hj => ?_) (fun j hj => Nat.le_refl _)
      · rw [List.length_replicate] at hlongest
        exact hlongest
      · rw [List.length_replicate] at hj
        have hnul : 0 ∉ (List.replicate k 32 ++ value).drop j := fun hmem =>
          (List.mem_append.mp (List.mem_of_mem_drop hmem)).elim
            (fun h => absurd (List.eq_of_mem_replicate h) (by decide)) hvalue
        rw [cat_rest 2 0 _ _ (Nat.zero_le _) hnul]
        have hlen : 0 + name.length + 1 + j + ((List.replicate k 32 ++ value).drop j).length =
            name.length + 1 + k + value.length := by
          rw [List.length_drop, List.length_append, List.length_replicate]
          omega
        rw [hlen, Nat.zero_add]
    · intro b v pos' c' hb
      refine cat_lit_ne ?_
      rintro rfl
      exact absurd hb (by decide)
  exact exec_of_longest hrest

end

-- ============================================================================
-- Status lines
-- ============================================================================

section

variable {a b c reason : Bytes}

/-- The text of a status line. -/
def statusLine (a b c reason : Bytes) : Bytes :=
  bytesOf "HTTP/" ++ (a ++ ([46] ++ (b ++ ([32] ++ (c ++ ([32] ++ reason))))))

theorem cat_digits {i pos : Nat} {ds r xs : Bytes} {x : UInt8} {ms : List (Matcher UInt8)}
    {c : Caps} (hds : Digits ds) (hx : isDigit x = false) :
    cat (group i (rep 1 isDigit) :: lit (x :: xs) :: ms) ⟨ds ++ (x :: xs ++ r), pos, c⟩ =
      cat ms ⟨r, pos + ds.length + (xs.length + 1), (i, pos, pos + ds.length) :: c⟩ := by
  rw [cat_group_run (List.length_pos_iff.mpr hds.1) hds.2 (by simpa using hx), cat_lit,
    List.length_cons]
  intro y v pos' c' hy
  refine cat_lit_ne ?_
  rintro rfl
  exact absurd hy (by rw [hx]; decide)

theorem rspPatt_exec (ha : Digits a) (hb : Digits b) (hc : Digits c) (hne : reason ≠ [])
    (hreason : 0 ∉ reason) :
    exec rspPatt (statusLine a b c reason) =
      some [(0, 0, 5 + a.length + 1 + b.length + 1 + c.length + 1 + reason.length),
        (4, 5 + a.length + 1 + b.length + 1 + c.length + 1,
          5 + a.length + 1 + b.length + 1 + c.length + 1 + reason.length),
        (3, 5 + a.length + 1 + b.length + 1, 5 + a.length + 1 + b.length + 1 + c.length),
        (2, 5 + a.length + 1, 5 + a.length + 1 + b.length), (1, 5, 5 + a.length)] := by
  have hlongest : longest (rspPatt ⟨statusLine a b c reason, 0, []⟩) =
      some ⟨[], 5 + a.length + 1 + b.length + 1 + c.length + 1 + reason.length,
        [(4, 5 + a.length + 1 + b.length + 1 + c.length + 1,
            5 + a.length + 1 + b.length + 1 + c.length + 1 + reason.length),
          (3, 5 + a.length + 1 + b.length + 1, 5 + a.length + 1 + b.length + 1 + c.length),
          (2, 5 + a.length + 1, 5 + a.length + 1 + b.length), (1, 5, 5 + a.length)]⟩ := by
    rw [rspPatt, cat_bol, statusLine, cat_lit, show bytesOf "." = [46] from rfl,
      show bytesOf " " = [32] from rfl, show (bytesOf "HTTP/").length = 5 from rfl,
      cat_digits ha (by decide), cat_digits hb (by decide), cat_digits hc (by decide),
      cat_rest 4 1 _ _ (List.length_pos_iff.mpr hne) hreason]
    simp only [List.length_nil, Nat.zero_add]
    rfl
  exact exec_of_longest hlongest

end

-- ============================================================================
-- Request lines
-- ============================================================================

section

variable {v u method uri a b : Bytes} {pos i : Nat} {c : Caps}

/-- What a group of digits leaves behind. -/
theorem digits_of_cat {min : Nat} {ms : List (Matcher UInt8)}
    (h : cat (group i (rep min isDigit) :: ms) ⟨v, pos, c⟩ ≠ []) :
    ∃ ds r pos' c', v = ds ++ r ∧ (∀ x ∈ ds, isDigit x = true) ∧ cat ms ⟨r, pos', c'⟩ ≠ [] := by
  rw [cat_group_rep, ne_eq, List.flatMap_eq_nil_iff, Classical.not_forall] at h
  obtain ⟨k, hk⟩ := h
  rw [Classical.not_imp] at hk
  obtain ⟨hmem, hrest⟩ := hk
  refine ⟨v.take k, v.drop k, _, _, (List.take_append_drop k v).symm, fun x hx => ?_, hrest⟩
  have hle := (mem_lengths.mp hmem).2
  rw [← List.takeWhile_append_dropWhile (p := isDigit) (l := v),
    List.take_append_of_le_length hle] at hx
  exact List.mem_takeWhile_imp (List.mem_of_mem_take hx)

/-- A protocol version holds no blank. -/
theorem noBlank_of_version
    (h : cat [group 3 (rep 1 isDigit), lit [46], group 4 (rep 1 isDigit), eol] ⟨v, pos, c⟩ ≠ []) :
    32 ∉ v := by
  obtain ⟨ds, r, pos₁, c₁, rfl, hds, h⟩ := digits_of_cat h
  obtain ⟨t, rfl⟩ := prefix_of_cat_lit h
  rw [cat_lit] at h
  obtain ⟨ds', r', pos₂, c₂, rfl, hds', h⟩ := digits_of_cat h
  have hnil : r' = [] := by
    cases r' with
    | nil => rfl
    | cons x r' => exact absurd cat_eol_cons h
  subst hnil
  intro hmem
  simp only [List.mem_append, List.mem_singleton, List.not_mem_nil, or_false] at hmem
  rcases hmem with hmem | hmem | hmem
  · exact absurd (hds 32 hmem) (by decide)
  · exact absurd hmem (by decide)
  · exact absurd (hds' 32 hmem) (by decide)

/-- The last blank of a text stands at one place. -/
theorem lastBlank_unique {j k : Nat} {s t : Bytes} (hj : u.drop j = 32 :: s) (hs : 32 ∉ s)
    (hk : u.drop k = 32 :: t) (ht : 32 ∉ t) : j = k := by
  have hle {j k : Nat} {s t : Bytes} (hj : u.drop j = 32 :: s) (hs : 32 ∉ s)
      (hk : u.drop k = 32 :: t) : k ≤ j := by
    by_contra hlt
    obtain ⟨d, rfl⟩ : ∃ d, k = j + (d + 1) := ⟨k - j - 1, by omega⟩
    rw [← List.drop_drop, hj, List.drop_succ_cons] at hk
    apply hs
    apply List.mem_of_mem_drop (i := d)
    rw [hk]
    exact List.mem_cons_self
  exact Nat.le_antisymm (hle hk ht hj) (hle hj hs hk)

/-- The text of a request line. -/
def requestLine (method uri a b : Bytes) : Bytes :=
  method ++ ([32] ++ (uri ++ (bytesOf " HTTP/" ++ (a ++ ([46] ++ b)))))

theorem reqPatt_exec (hm : method ≠ []) (hmethod : ∀ x ∈ method, isAlpha x = true) (hne : uri ≠ [])
    (huri : 0 ∉ uri) (ha : Digits a) (hb : Digits b) :
    exec reqPatt (requestLine method uri a b) =
      some [(0, 0, method.length + 1 + uri.length + 6 + a.length + 1 + b.length),
        (4, method.length + 1 + uri.length + 6 + a.length + 1,
          method.length + 1 + uri.length + 6 + a.length + 1 + b.length),
        (3, method.length + 1 + uri.length + 6, method.length + 1 + uri.length + 6 + a.length),
        (2, method.length + 1, method.length + 1 + uri.length), (1, 0, method.length)] := by
  have hdigit : ∀ {ds : Bytes}, Digits ds → ∀ x ∈ ds, x ≠ 0 ∧ x ≠ 32 := by
    intro ds hds x hx
    refine ⟨?_, (isDigit_ne (hds.2 x hx)).2⟩
    rintro rfl
    exact absurd (hds.2 0 hx) (by decide)
  have hhttp : bytesOf " HTTP/" = 32 :: bytesOf "HTTP/" := rfl
  have hversion : 32 ∉ bytesOf "HTTP/" ++ (a ++ ([46] ++ b)) := by
    simp only [List.mem_append, List.mem_singleton]
    rintro (h | h | h | h)
    · exact absurd h (by decide)
    · exact (hdigit ha 32 h).2 rfl
    · exact absurd h (by decide)
    · exact (hdigit hb 32 h).2 rfl
  have hlast : (uri ++ (bytesOf " HTTP/" ++ (a ++ ([46] ++ b)))).drop uri.length =
      32 :: (bytesOf "HTTP/" ++ (a ++ ([46] ++ b))) := by
    rw [List.drop_left, hhttp, List.cons_append]
  have hany : (uri ++ (bytesOf " HTTP/" ++ (a ++ ([46] ++ b)))).takeWhile anyChar =
      uri ++ (bytesOf " HTTP/" ++ (a ++ ([46] ++ b))) := by
    rw [List.takeWhile_eq_self_iff]
    intro x hx
    rw [anyChar_iff]
    rintro rfl
    simp only [List.mem_append, List.mem_singleton] at hx
    rcases hx with h | h | h | h | h
    · exact huri h
    · exact absurd h (by decide)
    · exact (hdigit ha 0 h).1 rfl
    · exact absurd h (by decide)
    · exact (hdigit hb 0 h).1 rfl
  have hlongest : longest (reqPatt ⟨requestLine method uri a b, 0, []⟩) =
      some ⟨[], method.length + 1 + uri.length + 6 + a.length + 1 + b.length,
        [(4, method.length + 1 + uri.length + 6 + a.length + 1,
            method.length + 1 + uri.length + 6 + a.length + 1 + b.length),
          (3, method.length + 1 + uri.length + 6, method.length + 1 + uri.length + 6 + a.length),
          (2, method.length + 1, method.length + 1 + uri.length), (1, 0, method.length)]⟩ := by
    rw [reqPatt, cat_bol, requestLine,
      cat_group_run (List.length_pos_iff.mpr hm) hmethod (by simp [isAlpha, isUpper, isLower]),
      show bytesOf " " = [32] from rfl, cat_lit, cat_group_at (List.length_pos_iff.mpr hne)]
    · rw [groupAt, List.drop_left, cat_lit, show (bytesOf " HTTP/").length = 6 from rfl,
        show bytesOf "." = [46] from rfl, cat_digits ha (by decide)]
      rw [cat_group_eol (List.length_pos_iff.mpr hb.1) hb.2]
      simp only [List.length_nil, List.length_singleton, Nat.zero_add]
      rfl
    · rw [hany, List.length_append]
      exact Nat.le_add_right _ _
    · intro k _ _ hk
      by_contra hmatch
      rw [groupAt] at hmatch
      obtain ⟨t, ht⟩ := prefix_of_cat_lit hmatch
      rw [← ht, cat_lit, show bytesOf "." = [46] from rfl] at hmatch
      have hblank := noBlank_of_version hmatch
      have hnone : 32 ∉ bytesOf "HTTP/" ++ t := by
        simp only [List.mem_append, not_or]
        exact ⟨by decide, hblank⟩
      rw [hhttp, List.cons_append] at ht
      exact hk (lastBlank_unique ht.symm hnone hlast hversion)
    · intro x v pos' c' hx
      refine cat_lit_ne ?_
      rintro rfl
      exact absurd hx (by decide)
  exact exec_of_longest hlongest

end

-- ============================================================================
-- URIs
-- ============================================================================

section

variable {scheme auth host port path : Bytes} {pos : Nat} {c : Caps}

/-- The path group of a URI, at the path. -/
theorem cat_path (hpath : ∀ x ∈ path.head?, x = 47) (hnul : 0 ∉ path) :
    cat [opt (group 3 (cat [lit [47], rep 0 anyChar])), eol] ⟨path, pos, c⟩ =
      [⟨[], pos + path.length,
        if path = [] then c else (3, pos, pos + path.length) :: c⟩] := by
  cases path with
  | nil => rfl
  | cons x p =>
      obtain rfl : x = 47 := hpath x rfl
      have hany : p.takeWhile anyChar = p := by
        rw [List.takeWhile_eq_self_iff]
        intro x hx
        rw [anyChar_iff]
        rintro rfl
        exact hnul (List.mem_cons_of_mem _ hx)
      have hnotEol {k : Nat} (hk : k < p.length) (pos' : Nat) (c' : Caps) :
          cat [eol] ⟨p.drop k, pos', c'⟩ = [] := by
        rw [List.drop_eq_getElem_cons hk]
        exact cat_eol_cons
      rw [cat_opt, group_cat, show (47 :: p : Bytes) = [47] ++ p from rfl, cat_lit, cat_rep, hany,
        List.map_flatMap, List.flatMap_assoc, flatMap_unique (k := p.length)
          (lengths_nodup 0 p.length) (mem_lengths.mpr ⟨Nat.zero_le _, Nat.le_refl _⟩)]
      · rw [List.drop_length]
        have hlen : pos + [(47 : UInt8)].length + p.length = pos + ([47] ++ p).length := by
          rw [List.length_append, Nat.add_assoc]
        rw [hlen]
        rfl
      · intro k hk hne
        have hle := (mem_lengths.mp hk).2
        rw [List.flatMap_eq_nil_iff]
        intro s hs
        obtain ⟨s', hs', rfl⟩ := List.mem_map.mp hs
        obtain rfl := List.mem_singleton.mp hs'
        exact hnotEol (by omega) _ _

/-- The text of an absolute URI. -/
def uriText (scheme auth path : Bytes) : Bytes :=
  scheme ++ (bytesOf "://" ++ (auth ++ path))

theorem uriPatt_exec (hs : scheme ≠ []) (hscheme : ∀ x ∈ scheme, isLower x = true) (ha : auth ≠ [])
    (hauth : ∀ x ∈ auth, authChar x = true) (hpath : ∀ x ∈ path.head?, x = 47) (hnul : 0 ∉ path) :
    exec uriPatt (uriText scheme auth path) =
      some ((0, 0, scheme.length + 3 + auth.length + path.length) ::
        if path = [] then
          [(2, scheme.length + 3, scheme.length + 3 + auth.length), (1, 0, scheme.length)]
        else
          [(3, scheme.length + 3 + auth.length, scheme.length + 3 + auth.length + path.length),
            (2, scheme.length + 3, scheme.length + 3 + auth.length), (1, 0, scheme.length)]) := by
  have hslash : ∀ x ∈ path.head?, authChar x = false := by
    intro x hx
    rw [hpath x hx]
    decide
  have hlongest : longest (uriPatt ⟨uriText scheme auth path, 0, []⟩) =
      some ⟨[], scheme.length + 3 + auth.length + path.length,
        if path = [] then
          [(2, scheme.length + 3, scheme.length + 3 + auth.length), (1, 0, scheme.length)]
        else
          [(3, scheme.length + 3 + auth.length, scheme.length + 3 + auth.length + path.length),
            (2, scheme.length + 3, scheme.length + 3 + auth.length), (1, 0, scheme.length)]⟩ := by
    rw [uriPatt, cat_bol, uriText,
      cat_group_run (List.length_pos_iff.mpr hs) hscheme (by simp [bytesOf, isLower]), cat_lit,
      show (bytesOf "://").length = 3 from rfl, show bytesOf "/" = [47] from rfl,
      cat_group_run (List.length_pos_iff.mpr ha) hauth hslash, cat_path hpath hnul]
    · rw [Nat.zero_add]
      rfl
    · -- no path and no end within the authority
      intro x v pos' c' hx
      have hne : x ≠ 47 := by
        rintro rfl
        exact absurd hx (by decide)
      rw [cat_opt, group_cat, cat_lit_ne hne, cat_eol_cons]
      rfl
    · intro x v pos' c' hx
      refine cat_lit_ne ?_
      rintro rfl
      exact absurd hx (by decide)
  exact exec_of_longest hlongest

/-- A scheme that is not all lower case does not match. -/
theorem uriPatt_none (hscheme : ∃ x ∈ scheme, isLower x = false) (hcolon : 58 ∉ scheme)
    (u : Bytes) :
    exec uriPatt (scheme ++ u) = none := by
  apply exec_anchored
  rw [cat_bol, cat_group_rep, List.flatMap_eq_nil_iff]
  intro k hk
  have hlt : k < scheme.length := by
    have hle := (mem_lengths.mp hk).2
    obtain ⟨x, hx, hlower⟩ := hscheme
    obtain ⟨s, t, rfl⟩ := List.append_of_mem hx
    have hrun : ((s ++ x :: t ++ u).takeWhile isLower).length ≤ s.length := by
      rw [List.append_assoc, List.takeWhile_append]
      split
      · rw [List.cons_append, List.takeWhile_cons_of_neg (by simp [hlower])]
        simp
      · exact (List.takeWhile_prefix isLower).length_le
    rw [List.length_append, List.length_cons]
    omega
  rw [groupAt, List.drop_append_of_le_length (Nat.le_of_lt hlt), List.drop_eq_getElem_cons hlt,
    List.cons_append, show bytesOf "://" = 58 :: bytesOf "//" from rfl]
  refine cat_lit_ne fun hx => hcolon ?_
  rw [← hx]
  exact List.getElem_mem hlt

-- ============================================================================
-- Hosts
-- ============================================================================

theorem hostChar_ne_colon {x : UInt8} (h : hostChar x = true) : x ≠ 58 := by
  rintro rfl
  exact absurd h (by decide)

/-- No port starts here: there is no colon, or no digit behind it. -/
def NoPort (tail : Bytes) : Prop := ∀ v, tail = 58 :: v → ∀ x ∈ v.head?, isDigit x = false

theorem noPort_of_head {v : Bytes} (hv : v.head? ≠ some 58) : NoPort v := by
  rintro w rfl
  exact absurd rfl hv

/-- The port group, where there is no port. -/
theorem cat_port_none {v : Bytes} (hv : NoPort v) :
    cat [opt (group 2 (cat [lit [58], rep 1 isDigit]))] ⟨v, pos, c⟩ = [⟨v, pos, c⟩] := by
  rw [cat_opt, group_cat]
  cases v with
  | nil => rfl
  | cons x v =>
      by_cases hx : x = 58
      · subst hx
        have hrun : v.takeWhile isDigit = [] := by
          cases v with
          | nil => rfl
          | cons d v => rw [List.takeWhile_cons_of_neg (by simp [hv _ rfl d rfl])]
        rw [show (58 :: v : Bytes) = [58] ++ v from rfl, cat_lit, cat_rep, hrun]
        rfl
      · rw [cat_lit_ne hx]
        rfl

/-- The port group, at a port. -/
theorem cat_port {r : Bytes} (hport : Digits port) (hr : ∀ x ∈ r.head?, isDigit x = false) :
    ∃ ss, cat [opt (group 2 (cat [lit [58], rep 1 isDigit]))] ⟨58 :: (port ++ r), pos, c⟩ =
      ⟨r, pos + 1 + port.length, (2, pos, pos + 1 + port.length) :: c⟩ :: ss ∧
      ∀ s ∈ ss, s.pos ≤ pos + 1 + port.length := by
  have hmin : 1 ≤ port.length := List.length_pos_iff.mpr hport.1
  obtain ⟨l, hl, hlt⟩ := lengths_cons hmin
  rw [cat_single, opt, group_cat, show (58 :: (port ++ r) : Bytes) = [58] ++ (port ++ r) from rfl,
    cat_lit, cat_single, rep_eq, takeWhile_run hport.2 hr, hl, List.map_map, List.map_cons,
    List.cons_append]
  refine ⟨_, congrArg (· :: _) ?_, fun s hs => ?_⟩
  · simp only [Function.comp, List.drop_left]
    rfl
  · rcases List.mem_append.mp hs with hs | hs
    · obtain ⟨k, hk, rfl⟩ := List.mem_map.mp hs
      have hle := (hlt k hk).2
      show pos + 1 + k ≤ pos + 1 + port.length
      omega
    · rw [List.mem_singleton.mp hs]
      show pos ≤ pos + 1 + port.length
      omega

/-- Where the host ends, the pattern matches with the whole host first. -/
theorem hostPatt_longest {tail : Bytes} {t : MState UInt8} {ss : List (MState UInt8)}
    (hh : host ≠ []) (hhost : ∀ x ∈ host, hostChar x = true)
    (htail : ∀ x ∈ tail.head?, hostChar x = false)
    (ht : cat [opt (group 2 (cat [lit [58], rep 1 isDigit]))]
      ⟨tail, host.length, [(1, 0, host.length)]⟩ = t :: ss)
    (hpos : host.length ≤ t.pos) (hle : ∀ s ∈ ss, s.pos ≤ t.pos) :
    exec hostPatt (host ++ tail) = some ((0, 0, t.pos) :: t.caps) := by
  apply exec_of_longest
  have hmin : 1 ≤ host.length := List.length_pos_iff.mpr hh
  obtain ⟨l, hl, hlt⟩ := lengths_cons hmin
  rw [hostPatt, cat_bol, show bytesOf ":" = [58] from rfl, cat_group_rep, takeWhile_run hhost htail,
    hl, List.flatMap_cons, groupAt, List.drop_left, Nat.zero_add, ht, List.cons_append]
  apply longest_cons
  intro s hs
  rcases List.mem_append.mp hs with hs | hs
  · exact hle s hs
  · -- a shorter host is followed by one of its own characters
    obtain ⟨k, hk, hs⟩ := List.mem_flatMap.mp hs
    have hlt' := (hlt k hk).2
    rw [groupAt, List.drop_append_of_le_length (Nat.le_of_lt hlt'),
      List.drop_eq_getElem_cons hlt', List.cons_append, cat_port_none, List.mem_singleton] at hs
    · rw [hs]
      show 0 + k ≤ t.pos
      omega
    · refine noPort_of_head fun hx => ?_
      exact hostChar_ne_colon (hhost _ (List.getElem_mem hlt')) (Option.some.inj hx)

/-- A host without a port. -/
theorem hostPatt_exec {tail : Bytes} (hh : host ≠ []) (hhost : ∀ x ∈ host, hostChar x = true)
    (htail : ∀ x ∈ tail.head?, hostChar x = false) (hnone : NoPort tail) :
    exec hostPatt (host ++ tail) = some [(0, 0, host.length), (1, 0, host.length)] :=
  hostPatt_longest hh hhost htail (cat_port_none hnone) (Nat.le_refl _)
    fun _ hs => absurd hs List.not_mem_nil

/-- A host with a port. -/
theorem hostPatt_exec_port {tail : Bytes} (hh : host ≠ [])
    (hhost : ∀ x ∈ host, hostChar x = true) (hport : Digits port)
    (hdigit : ∀ x ∈ tail.head?, isDigit x = false) :
    exec hostPatt (host ++ (58 :: (port ++ tail))) =
      some [(0, 0, host.length + 1 + port.length),
        (2, host.length, host.length + 1 + port.length), (1, 0, host.length)] := by
  obtain ⟨ss, hport', hle⟩ := cat_port hport hdigit
  refine hostPatt_longest hh hhost ?_ hport' ?_ hle
  · intro x hx
    rw [← Option.some.inj hx]
    decide
  · show host.length ≤ host.length + 1 + port.length
    omega

end

end HttpProxy
