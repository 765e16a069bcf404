/-
  HttpProxy.Parse.Shapes

  The texts the patterns of core/net_data.c match.  A line `req_patt` matches is a
  request line and a text `uri_patt` matches an absolute URI, whatever the bytes;
  `host_patt` sees the longest run of host characters and a port behind it.
-/

import HttpProxy.Stream.Patterns

namespace HttpProxy

open Lib.Regex

section

variable {u uri method scheme auth path a b : Bytes} {res : Caps}

-- ============================================================================
-- Header fields
-- ============================================================================

/-- Where `header_patt` matches, a name ends at a colon; what is in front of it is left out. -/
theorem headerPatt_shape (h : exec headerPatt u = some res) :
    ∃ pre name blanks value, u = pre ++ (name ++ ([58] ++ (blanks ++ value))) ∧ name ≠ [] ∧
      (∀ x ∈ name, nameChar x = true) ∧ (∀ x ∈ blanks, x = 32) ∧
      res = [(0, pre.length, u.length), (2, pre.length + name.length + 1 + blanks.length, u.length),
        (1, pre.length, pre.length + name.length)] := by
  obtain ⟨pre, r, t, rfl, ht, rfl⟩ := mem_of_exec h
  rw [headerPatt] at ht
  obtain ⟨name, u₁, rfl, hlen, hname, ht₁⟩ := mem_cat_group ht
  obtain ⟨u₂, rfl, ht₂⟩ := mem_cat_lit ht₁
  obtain ⟨blanks, u₃, rfl, -, hblanks, ht₃⟩ := mem_cat_rep ht₂
  obtain ⟨value, u₄, rfl, -, -, ht₄⟩ := mem_cat_group ht₃
  obtain ⟨rfl, rfl⟩ := mem_cat_eol ht₄
  refine ⟨pre, name, blanks, value, ?_, List.length_pos_iff.mp hlen, hname,
    fun x hx => of_decide_eq_true (hblanks x hx), ?_⟩
  · rw [List.append_nil]
    rfl
  · have hall : (pre ++ (name ++ (bytesOf ":" ++ (blanks ++ (value ++ []))))).length =
        pre.length + name.length + (bytesOf ":").length + blanks.length + value.length := by
      simp only [List.length_append, List.length_nil]
      omega
    rw [hall]
    rfl

-- ============================================================================
-- Request lines
-- ============================================================================

/-- A line in the form `METHOD uri HTTP/a.b`. -/
structure RequestShape (method uri a b : Bytes) : Prop where
  methodNe : method ≠ []
  methodAlpha : ∀ x ∈ method, isAlpha x = true
  uriNe : uri ≠ []
  uriNul : 0 ∉ uri
  major : Digits a
  minor : Digits b

theorem digits_of_length {ds : Bytes} (hlen : 1 ≤ ds.length) (hds : ∀ x ∈ ds, isDigit x = true) :
    Digits ds :=
  ⟨List.length_pos_iff.mp hlen, hds⟩

/-- What `req_patt` matches is a request line. -/
theorem reqPatt_shape (h : exec reqPatt u = some res) :
    ∃ method uri a b, u = requestLine method uri a b ∧ RequestShape method uri a b := by
  rw [reqPatt] at h
  obtain ⟨t, ht⟩ := mem_of_exec_anchored h
  obtain ⟨method, u₁, rfl, hm, hmethod, ht₁⟩ := mem_cat_group ht
  obtain ⟨u₂, rfl, ht₂⟩ := mem_cat_lit ht₁
  obtain ⟨uri, u₃, rfl, hu, huri, ht₃⟩ := mem_cat_group ht₂
  obtain ⟨u₄, rfl, ht₄⟩ := mem_cat_lit ht₃
  obtain ⟨a, u₅, rfl, ha, hmajor, ht₅⟩ := mem_cat_group ht₄
  obtain ⟨u₆, rfl, ht₆⟩ := mem_cat_lit ht₅
  obtain ⟨b, u₇, rfl, hb, hminor, ht₇⟩ := mem_cat_group ht₆
  obtain ⟨rfl, -⟩ := mem_cat_eol ht₇
  refine ⟨method, uri, a, b, ?_, List.length_pos_iff.mp hm, hmethod, List.length_pos_iff.mp hu,
    fun hmem => anyChar_iff.mp (huri 0 hmem) rfl, digits_of_length ha hmajor,
    digits_of_length hb hminor⟩
  rw [List.append_nil]
  rfl

theorem RequestShape.exec (h : RequestShape method uri a b) :
    exec reqPatt (requestLine method uri a b) =
      some [(0, 0, method.length + 1 + uri.length + 6 + a.length + 1 + b.length),
        (4, method.length + 1 + uri.length + 6 + a.length + 1,
          method.length + 1 + uri.length + 6 + a.length + 1 + b.length),
        (3, method.length + 1 + uri.length + 6, method.length + 1 + uri.length + 6 + a.length),
        (2, method.length + 1, method.length + 1 + uri.length), (1, 0, method.length)] :=
  reqPatt_exec h.methodNe h.methodAlpha h.uriNe h.uriNul h.major h.minor

/-- A line is split in one way. -/
theorem requestLine_inj {method' uri' a' b' : Bytes} (h : RequestShape method uri a b)
    (h' : RequestShape method' uri' a' b')
    (heq : requestLine method uri a b = requestLine method' uri' a' b') :
    method = method' ∧ uri = uri' ∧ a = a' ∧ b = b' := by
  have hexec := h.exec
  rw [heq, h'.exec] at hexec
  simp only [Option.some.injEq, List.cons.injEq, Prod.mk.injEq, true_and, and_true] at hexec
  obtain ⟨-, -, hmajor, huri, hmethod⟩ := hexec
  obtain ⟨hm, htail⟩ := List.append_inj heq hmethod.symm
  obtain ⟨hu, htail⟩ := List.append_inj (List.append_cancel_left htail) (by omega)
  obtain ⟨ha, htail⟩ := List.append_inj (List.append_cancel_left htail) (by omega)
  exact ⟨hm, hu, ha, List.append_cancel_left htail⟩

-- ============================================================================
-- URIs
-- ============================================================================

/-- A text in the form `scheme://authority[path]`. -/
structure UriShape (scheme auth path : Bytes) : Prop where
  schemeNe : scheme ≠ []
  schemeLower : ∀ x ∈ scheme, isLower x = true
  authNe : auth ≠ []
  authChars : ∀ x ∈ auth, authChar x = true
  pathHead : ∀ x ∈ path.head?, x = 47
  pathNul : 0 ∉ path

/-- What `uri_patt` matches is an absolute URI. -/
theorem uriPatt_shape (h : exec uriPatt u = some res) :
    ∃ scheme auth path, u = uriText scheme auth path ∧ UriShape scheme auth path := by
  rw [uriPatt] at h
  obtain ⟨t, ht⟩ := mem_of_exec_anchored h
  obtain ⟨scheme, u₁, rfl, hs, hscheme, ht₁⟩ := mem_cat_group ht
  obtain ⟨u₂, rfl, ht₂⟩ := mem_cat_lit ht₁
  obtain ⟨auth, path, rfl, ha, hauth, ht₃⟩ := mem_cat_group ht₂
  suffices hpath : (∀ x ∈ path.head?, x = 47) ∧ 0 ∉ path from
    ⟨scheme, auth, path, rfl, List.length_pos_iff.mp hs, hscheme, List.length_pos_iff.mp ha, hauth,
      hpath.1, hpath.2⟩
  rcases mem_cat_opt ht₃ with ⟨t₁, hmem, ht₄⟩ | ht₄
  · rw [group_cat] at hmem
    obtain ⟨t₂, hmem₂, rfl⟩ := List.mem_map.mp hmem
    obtain ⟨u₃, rfl, hmem₃⟩ := mem_cat_lit hmem₂
    obtain ⟨p, u₄, rfl, -, hp, hmem₄⟩ := mem_cat_rep hmem₃
    obtain rfl := List.mem_singleton.mp hmem₄
    obtain ⟨rfl, -⟩ := mem_cat_eol ht₄
    refine ⟨fun x hx => (Option.some.inj hx).symm, ?_⟩
    rw [List.append_nil, show bytesOf "/" = [47] from rfl, List.singleton_append, List.mem_cons,
      not_or]
    exact ⟨by decide, fun hmem => anyChar_iff.mp (hp 0 hmem) rfl⟩
  · obtain ⟨rfl, -⟩ := mem_cat_eol ht₄
    exact ⟨fun x hx => absurd hx (by simp), List.not_mem_nil⟩

theorem UriShape.exec (h : UriShape scheme auth path) :
    exec uriPatt (uriText scheme auth path) =
      some ((0, 0, scheme.length + 3 + auth.length + path.length) ::
        if path = [] then
          [(2, scheme.length + 3, scheme.length + 3 + auth.length), (1, 0, scheme.length)]
        else
          [(3, scheme.length + 3 + auth.length, scheme.length + 3 + auth.length + path.length),
            (2, scheme.length + 3, scheme.length + 3 + auth.length), (1, 0, scheme.length)]) :=
  uriPatt_exec h.schemeNe h.schemeLower h.authNe h.authChars h.pathHead h.pathNul

-- ============================================================================
-- Hosts
-- ============================================================================

/-- The text of a host and what follows it: the longest run of host characters, and the
    digits of a port if one follows. -/
inductive HostShape : (host : Bytes) → (port : Option Bytes) → (rest : Bytes) → Prop
  | noPort {host rest : Bytes} : host ≠ [] → (∀ x ∈ host, hostChar x = true) →
      (∀ x ∈ rest.head?, hostChar x = false) → NoPort rest → HostShape host none rest
  | port {host port rest : Bytes} : host ≠ [] → (∀ x ∈ host, hostChar x = true) → Digits port →
      (∀ x ∈ rest.head?, isDigit x = false) → HostShape host (some port) rest

/-- The port of an authority, with its colon. -/
def portText : Option Bytes → Bytes
  | none => []
  | some port => 58 :: port

theorem HostShape.hostNe {host rest : Bytes} {port : Option Bytes}
    (h : HostShape host port rest) : host ≠ [] := by
  cases h with
  | noPort hne => exact hne
  | port hne => exact hne

theorem HostShape.hostChars {host rest : Bytes} {port : Option Bytes}
    (h : HostShape host port rest) : ∀ x ∈ host, hostChar x = true := by
  cases h with
  | noPort _ hhost => exact hhost
  | port _ hhost => exact hhost

/-- A text that starts with another character does not match `host_patt`. -/
theorem hostPatt_none (h : ∀ x ∈ u.head?, hostChar x = false) : exec hostPatt u = none := by
  apply exec_anchored
  have hrun : u.takeWhile hostChar = [] := by
    cases u with
    | nil => rfl
    | cons x v => rw [List.takeWhile_cons_of_neg (by simp [h x rfl])]
  rw [cat_bol, cat_group_rep, hrun]
  rfl

/-- A text either starts with a host, or with another character. -/
theorem hostShape_total (u : Bytes) :
    (∀ x ∈ u.head?, hostChar x = false) ∨
      ∃ host port rest, u = host ++ (portText port ++ rest) ∧ HostShape host port rest := by
  have hsplit := List.takeWhile_append_dropWhile (p := hostChar) (l := u)
  have hchars : ∀ x ∈ u.takeWhile hostChar, hostChar x = true := fun _ hx =>
    List.mem_takeWhile_imp hx
  have hhead : ∀ x ∈ (u.dropWhile hostChar).head?, hostChar x = false := fun x hx => by
    have hnot := List.head?_dropWhile_not hostChar u
    rw [Option.mem_def] at hx
    rw [hx] at hnot
    simpa using hnot
  generalize u.takeWhile hostChar = host at hsplit hchars
  generalize u.dropWhile hostChar = tail at hsplit hhead
  subst hsplit
  by_cases hne : host = []
  · subst hne
    exact .inl hhead
  · refine .inr ?_
    by_cases hport : NoPort tail
    · exact ⟨host, none, tail, rfl, .noPort hne hchars hhead hport⟩
    · simp only [NoPort, Classical.not_forall] at hport
      obtain ⟨v, rfl, x, hx, hdigit⟩ := hport
      rw [Bool.not_eq_false] at hdigit
      obtain ⟨w, rfl⟩ := List.head?_eq_some_iff.mp hx
      refine ⟨host, some ((x :: w).takeWhile isDigit), (x :: w).dropWhile isDigit, ?_,
        .port hne hchars ⟨?_, fun _ hy => List.mem_takeWhile_imp hy⟩ fun y hy => ?_⟩
      · rw [portText, List.cons_append, List.takeWhile_append_dropWhile]
      · rw [List.takeWhile_cons_of_pos hdigit]
        exact List.cons_ne_nil _ _
      · have hnot := List.head?_dropWhile_not isDigit (x :: w)
        rw [Option.mem_def] at hy
        rw [hy] at hnot
        simpa using hnot

/-- What `host_patt` finds. -/
theorem HostShape.exec {host rest : Bytes} {port : Option Bytes} (h : HostShape host port rest) :
    exec hostPatt (host ++ (portText port ++ rest)) =
      some ((0, 0, (host ++ portText port).length) ::
        match port with
        | none => [(1, 0, host.length)]
        | some _ => [(2, host.length, (host ++ portText port).length), (1, 0, host.length)]) := by
  cases h with
  | noPort hne hhost hrest hnone =>
      rw [portText, List.nil_append, List.append_nil, hostPatt_exec hne hhost hrest hnone]
  | port hne hhost hdigits hrest =>
      rename_i ds
      have hlen : (host ++ portText (some ds)).length = host.length + 1 + ds.length := by
        rw [portText, List.length_append, List.length_cons]
        omega
      rw [hlen, portText, List.cons_append, hostPatt_exec_port hne hhost hdigits hrest]

end

end HttpProxy
