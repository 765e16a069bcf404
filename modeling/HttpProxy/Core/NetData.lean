/-
  HttpProxy.Core.NetData

  core/net_data.c: the buffer and header table of one HTTP message, and the
  parsers of request lines, status lines and header fields.

  The header table is a uthash table: iteration follows insertion order, and a
  lookup among equal keys meets the first one in the chain of its bucket, which is
  the newest one as long as the table has not been expanded.  `table` has the
  entries in insertion order; entries are only ever added, so `hashTable` is the
  table itself.  Offsets are offsets into `buf`.

  A key of 32 bytes or more fills the array of its entry without a NUL, and `strlen`
  runs on into memory of the entry that has not been written yet.  What it meets there
  is not known: `heap` says it, and every function is defined for every `heap`.
-/

import HttpProxy.Core.Strbuf
import HttpProxy.Lib.Regex
import HttpProxy.Lib.UtHash

namespace HttpProxy

open Lib Lib.Regex

/-- `struct net_header_ent`: `key` is what `strncpy` left in the array, and `behind` what
    `strlen` met behind the array when the entry was added. -/
@[ext] structure NetHeaderEnt where
  key : Bytes
  valOffset : Nat
  behind : Bytes
  terminated : key.length < HTTP_HEADER_KEY_MAXLEN → behind = []
deriving DecidableEq

/-- `struct net_data`; `heap n` is what the memory of the `n`-th entry holds behind its key
    when `mem_alloc` returns it, up to a NUL. -/
structure NetData where
  buf : Strbuf
  table : List NetHeaderEnt
  heap : Nat → Bytes

/-- `struct net_req` -/
structure NetReq where
  data : NetData
  port : Int
  verMajor : Int
  verMinor : Int
  host : Nat
  protocol : Int
  path : Nat

/-- `struct net_rsp` -/
structure NetRsp where
  data : NetData
  code : Int
  verMajor : Int
  verMinor : Int
  httpMsg : Nat

/-- `net_data_init` -/
def netDataInit (heap : Nat → Bytes) : NetData := { buf := strbufInit, table := [], heap }

/-- Memory that holds zeros only. -/
def zeroHeap : Nat → Bytes := fun _ => []

/-- The hash key of an entry: as many bytes as `strlen` counted when it was added. -/
def NetHeaderEnt.hashKey (e : NetHeaderEnt) : Bytes := e.key ++ e.behind

/-- `HASH_FCN` on the hash key. -/
def NetHeaderEnt.hashv (e : NetHeaderEnt) : Nat := (hashJen e.hashKey).toNat

/-- The comparison of `HASH_FIND_STR`.  For a name longer than the array it reads `val_offset`
    where `strlen` has read `behind`; no such name is looked up. -/
def NetHeaderEnt.hasKey (e : NetHeaderEnt) (key : Bytes) : Bool := e.hashKey = key

/-- The uthash table of the entries. -/
def NetData.hashTable (data : NetData) : UtHash NetHeaderEnt :=
  hashAddAll NetHeaderEnt.hashv data.table

/-- `HASH_FIND_STR(data->table, key, h)` -/
def NetData.findStr (data : NetData) (key : Bytes) : Option NetHeaderEnt :=
  hashFind data.hashTable (hashJen key).toNat (·.hasKey key)

/-- `net_data_get_ent_offset`; `none` is -1. -/
def netDataGetEntOffset (data : NetData) (key : Bytes) : Option Nat :=
  (data.findStr key).map (·.valOffset)

/-- `net_data_get_ent`; `none` is NULL. -/
def netDataGetEnt (data : NetData) (key : Bytes) : Option Bytes :=
  (netDataGetEntOffset data key).map data.buf.str

/-- The entry that `strncpy` and `HASH_ADD_STR` make of memory with `mem` behind the key. -/
def NetHeaderEnt.ofKey (mem key : Bytes) (offset : Nat) : NetHeaderEnt where
  key := key.take HTTP_HEADER_KEY_MAXLEN
  valOffset := offset
  behind := if key.length < HTTP_HEADER_KEY_MAXLEN then [] else mem
  terminated h := if_pos (by rw [List.length_take] at h; omega)

/-- The entry `net_data_set_ent_offset` allocates. -/
def NetData.newEnt (data : NetData) (key : Bytes) (offset : Nat) : NetHeaderEnt :=
  .ofKey (data.heap data.table.length) key offset

/-- `net_data_set_ent_offset` -/
def netDataSetEntOffset (data : NetData) (key : Bytes) (offset : Nat) : NetData :=
  { data with table := data.table ++ [data.newEnt key offset] }

/-! ## Patterns -/

/-- `.`: any byte of a C string. -/
def anyChar (b : UInt8) : Bool := b ≠ 0

/-- `[a-zA-Z\-]` (the backslash is an ordinary character of the class). -/
def nameChar (b : UInt8) : Bool := isAlpha b || b = 92 || b = 45

/-- `[a-zA-Z0-9\.\-]` -/
def hostChar (b : UInt8) : Bool := isAlpha b || isDigit b || b = 92 || b = 46 || b = 45

/-- `[a-zA-Z0-9:\.\-]` -/
def authChar (b : UInt8) : Bool := hostChar b || b = 58

/-- `([a-zA-Z\-]+): *(.*)$` -/
def headerPatt : Matcher UInt8 :=
  cat [group 1 (rep 1 nameChar), lit (bytesOf ":"), rep 0 (· = 32), group 2 (rep 0 anyChar), eol]

/-- `^([a-zA-Z]+) (.+) HTTP/([0-9]+)\.([0-9]+)$` -/
def reqPatt : Matcher UInt8 :=
  cat [bol, group 1 (rep 1 isAlpha), lit (bytesOf " "), group 2 (rep 1 anyChar),
    lit (bytesOf " HTTP/"), group 3 (rep 1 isDigit), lit (bytesOf "."),
    group 4 (rep 1 isDigit), eol]

/-- `^([a-z]+)://([a-zA-Z0-9:\.\-]+)(/.*)?$` -/
def uriPatt : Matcher UInt8 :=
  cat [bol, group 1 (rep 1 isLower), lit (bytesOf "://"), group 2 (rep 1 authChar),
    opt (group 3 (cat [lit (bytesOf "/"), rep 0 anyChar])), eol]

/-- `^HTTP/([0-9]+)\.([0-9]+) ([0-9]+) (.+)$` -/
def rspPatt : Matcher UInt8 :=
  cat [bol, lit (bytesOf "HTTP/"), group 1 (rep 1 isDigit), lit (bytesOf "."),
    group 2 (rep 1 isDigit), lit (bytesOf " "), group 3 (rep 1 isDigit), lit (bytesOf " "),
    group 4 (rep 1 anyChar), eol]

/-- `^([a-zA-Z0-9\.\-]+)(:[0-9]+)?` -/
def hostPatt : Matcher UInt8 :=
  cat [bol, group 1 (rep 1 hostChar), opt (group 2 (cat [lit (bytesOf ":"), rep 1 isDigit]))]

/-- Start of a group that takes part in every match of its pattern. -/
def rmSo (res : Caps) (i : Nat) : Nat := (res.so i).getD 0

/-- End of a group that takes part in every match of its pattern. -/
def rmEo (res : Caps) (i : Nat) : Nat := (res.eo i).getD 0

/-! ## Parsers -/

/-- `net_parse_header`: the new data and the return value. -/
def netParseHeader (data : NetData) (offset : Nat) : NetData × Int :=
  match exec headerPatt (data.buf.str offset) with
  | none => (data, -1)
  | some res =>
      let buf := (data.buf.set (offset + rmEo res 1) 0).set (offset + rmEo res 2) 0
      (netDataSetEntOffset { data with buf } (buf.str (offset + rmSo res 1))
        (offset + rmSo res 2), 0)

/-- Copy `n` bytes of the buffer from `off` to its end and end them with a NUL. -/
def strbufCopyOut (buf : Strbuf) (off n : Nat) : Strbuf :=
  strbufAppend (((buf.p.drop off).take n).foldl strbufAppend buf) 0

/-- `net_parse_req` from the label `parse_host` on. -/
def netParseHost (req : NetReq) : NetReq × Int :=
  let offset := req.host
  match exec hostPatt (req.data.buf.str req.host) with
  | none => (req, -1)
  | some res =>
      let req :=
        if rmEo res 1 + offset = req.path then
          { req with
            host := req.data.buf.len
            data.buf := strbufCopyOut req.data.buf (offset + rmSo res 1) (rmEo res 1 - rmSo res 1) }
        else req
      match res.so 2 with
      | none => ({ req with port := HTTP_DEFAULT_PORT }, 0)
      | some so =>
          let buf := req.data.buf.set (offset + so) 0
          ({ req with data.buf := buf, port := atoi (buf.str (offset + so + 1)) }, 0)

/-- `net_parse_req`: where the host and the path of a non-CONNECT request are. -/
def netParseUri (req : NetReq) : NetReq × Int :=
  let offset := req.path
  match exec uriPatt (req.data.buf.str offset) with
  | none =>
      match netDataGetEntOffset req.data (bytesOf "Host") with
      | none => (req, -1)
      | some host => netParseHost { req with host, protocol := -1 }
  | some res =>
      let buf := req.data.buf.set (offset + rmEo res 1) 0
      let req := { req with
        data.buf := buf
        protocol := (offset + rmSo res 1 : Nat)
        host := offset + rmSo res 2 }
      match res.so 3 with
      | some so => netParseHost { req with path := offset + so }
      | none => netParseHost { req with path := buf.len, data.buf := strbufCat buf (bytesOf "/") }

/-- `net_parse_req` -/
def netParseReq (req : NetReq) : NetReq × Int :=
  match exec reqPatt (req.data.buf.str 0) with
  | none => (req, -1)
  | some res =>
      let buf := (((req.data.buf.set (rmEo res 1) 0).set (rmEo res 2) 0).set (rmEo res 3) 0).set
        (rmEo res 4) 0
      let req := { req with
        data.buf := buf
        verMajor := atoi (buf.str (rmSo res 3))
        verMinor := atoi (buf.str (rmSo res 4))
        path := rmSo res 2 }
      if buf.str 0 = bytesOf "CONNECT" then netParseHost { req with host := req.path }
      else netParseUri req

/-- `net_parse_rsp` -/
def netParseRsp (rsp : NetRsp) : NetRsp × Int :=
  match exec rspPatt (rsp.data.buf.str 0) with
  | none => (rsp, -1)
  | some res =>
      let buf := ((rsp.data.buf.set (rmEo res 1) 0).set (rmEo res 2) 0).set (rmEo res 3) 0
      ({ rsp with
          data.buf := buf
          verMajor := atoi (buf.str (rmSo res 1))
          verMinor := atoi (buf.str (rmSo res 2))
          code := atoi (buf.str (rmSo res 3))
          httpMsg := rmSo res 4 }, 0)

/-! ## Rebuilding a head -/

/-- `h->key` read as a C string: a key that fills the array runs on into the
    bytes of `val_offset` behind it. -/
def NetHeaderEnt.keyStr (e : NetHeaderEnt) : Bytes :=
  if e.key.length < HTTP_HEADER_KEY_MAXLEN then e.key
  else e.key ++ [UInt8.ofNat e.valOffset, UInt8.ofNat (e.valOffset / 256),
    UInt8.ofNat (e.valOffset / 65536), UInt8.ofNat (e.valOffset / 16777216)].takeWhile (· ≠ 0)

/-- One iteration of the loop of `net_append_headers`. -/
def appendHeader (data : NetData) (buf : Strbuf) (h : NetHeaderEnt) : Strbuf :=
  strbufCat (strbufCat (strbufCat (strbufCat buf h.keyStr) (bytesOf ": "))
    (data.buf.str h.valOffset)) (bytesOf "\r\n")

/-- `net_append_headers` -/
def netAppendHeaders (data : NetData) (buf : Strbuf) : Strbuf :=
  strbufCat (data.table.foldl (appendHeader data) buf) (bytesOf "\r\n")

/-- The head `net_forward_req_header` writes to the server. -/
def reqHeader (req : NetReq) : Strbuf :=
  let origin := req.data.buf
  let buf := strbufAppend (strbufCat strbufInit (origin.str 0)) 32
  let buf := strbufAppend (strbufCat buf (origin.str req.path)) 32
  let buf := strbufAppendNum (strbufCat buf (bytesOf "HTTP/")) req.verMajor
  let buf := strbufAppendNum (strbufAppend buf 46) req.verMinor
  netAppendHeaders req.data (strbufCat buf (bytesOf "\r\n"))

/-- The head `net_forward_rsp_header` writes to the client. -/
def rspHeader (rsp : NetRsp) : Strbuf :=
  let origin := rsp.data.buf
  let buf := strbufAppendNum (strbufCat strbufInit (bytesOf "HTTP/")) rsp.verMajor
  let buf := strbufAppend (strbufAppendNum (strbufAppend buf 46) rsp.verMinor) 32
  let buf := strbufAppend (strbufAppendNum buf rsp.code) 32
  let buf := strbufCat buf (origin.str rsp.httpMsg)
  netAppendHeaders rsp.data (strbufCat buf (bytesOf "\r\n"))

end HttpProxy
