/-
  HttpProxy.Parse.Agree

  The handler of a request is looked up twice: on the line as it was read, where the
  method ends at a blank, and on the parsed buffer, where it ends at a NUL.  Both find
  the same entry of the table (`handlerEntry_parsed`), since every write of the parser
  is behind the method.
-/

import HttpProxy.Parse.Forms

namespace HttpProxy

open Lib.Regex

-- ============================================================================
-- Comparing methods
-- ============================================================================

/-- The entry of the table `net_get_handler` returns. -/
def handlerEntry (method : Bytes) : Option (Bytes × HandlerKind) :=
  handlers.find? fun h => methodStrcmp h.1 method

theorem netGetHandler_entry (method : Bytes) :
    netGetHandler method = (handlerEntry method).map (·.2) := rfl

/-- A method is compared up to the blank behind it. -/
theorem methodStrcmp_blank (h m r : Bytes) (hm : 32 ∉ m) :
    methodStrcmp h (m ++ 32 :: r) = methodStrcmp h m := by
  induction h generalizing m with
  | nil =>
      cases m with
      | nil => rfl
      | cons b m => rfl
  | cons a h ih =>
      cases m with
      | nil =>
          show (if (32 : UInt8) = 32 then false else _) = false
          rw [if_pos rfl]
      | cons b m =>
          rw [List.mem_cons, not_or] at hm
          rw [List.cons_append, methodStrcmp, methodStrcmp, ih m hm.2]

-- ============================================================================
-- Before and after parsing
-- ============================================================================

section

variable {data : NetData} {req : NetReq} {line method a b auth : Bytes}

theorem Authority.requestLine (h : Authority line data method a b auth) :
    ∃ uri, lineStr line = HttpProxy.requestLine method uri a b ∧ RequestShape method uri a b := by
  cases h with
  | connect hline hshape _ => exact ⟨_, hline, hshape⟩
  | absolute hline hshape _ _ => exact ⟨_, hline, hshape⟩
  | origin hline hshape _ _ _ => exact ⟨_, hline, hshape⟩

/-- Behind parsing the method stands alone at the start of the buffer. -/
theorem netParseReq_method (h : Fetched line data)
    (hreq : netParseReq (netReqInit data) = (req, 0)) :
    ∃ method uri a b, lineStr line = requestLine method uri a b ∧ RequestShape method uri a b ∧
      req.data.buf.str 0 = method := by
  obtain ⟨method, a, b, auth, host, port, rest, hauth, htext, hhost⟩ := netParseReq_inv h hreq
  obtain ⟨req', str, hreq', hparsed, -, -⟩ := parse_authority h hauth htext hhost
  obtain ⟨rfl, -⟩ := Prod.mk.inj (hreq.symm.trans hreq')
  obtain ⟨uri, hline, hshape⟩ := hauth.requestLine
  exact ⟨method, uri, a, b, hline, hshape, hparsed.methodAt.str⟩

/-- The name of a handler matches the line exactly when it matches the parsed buffer. -/
theorem methodStrcmp_parsed (h : Fetched line data)
    (hreq : netParseReq (netReqInit data) = (req, 0)) (name : Bytes) :
    methodStrcmp name (req.data.buf.str 0) = methodStrcmp name (data.buf.str 0) := by
  obtain ⟨method, uri, a, b, hline, hshape, hstr⟩ := netParseReq_method h hreq
  have hblank : 32 ∉ method := fun hmem => absurd (hshape.methodAlpha 32 hmem) (by decide)
  have hsplit : requestLine method uri a b =
      method ++ 32 :: (uri ++ (bytesOf " HTTP/" ++ (a ++ ([46] ++ b)))) := rfl
  rw [hstr, h.lineAt.1.str, hline, hsplit, methodStrcmp_blank _ _ _ hblank]

/-- Both lookups of a request that is accepted find the same entry. -/
theorem handlerEntry_parsed (h : Fetched line data)
    (hreq : netParseReq (netReqInit data) = (req, 0)) :
    handlerEntry (req.data.buf.str 0) = handlerEntry (data.buf.str 0) := by
  rw [handlerEntry, handlerEntry]
  congr 1
  funext entry
  exact methodStrcmp_parsed h hreq entry.1

end

end HttpProxy
