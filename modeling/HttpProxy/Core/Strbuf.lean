/-
  HttpProxy.Core.Strbuf

  core/strbuf.c: a growing byte buffer that keeps a NUL after its content.
  `p` is the whole allocation; bytes past the content that the C code leaves
  unset are 0 here and are never read.
-/

import HttpProxy.Core.Basic

namespace HttpProxy

structure Strbuf where
  p : Bytes
  len : Nat
  cap : Nat

/-- `strbuf_init` -/
def strbufInit : Strbuf :=
  { p := List.replicate STRBUF_INIT_LEN 0, len := 0, cap := STRBUF_INIT_LEN }

/-- `strbuf_reset`: the old bytes stay in place. -/
def strbufReset (buf : Strbuf) : Strbuf := { buf with len := 0 }

/-- The doubling at the head of `strbuf_append`. -/
def strbufGrow (buf : Strbuf) : Strbuf :=
  if buf.len + 1 = buf.cap then
    { buf with p := buf.p ++ List.replicate buf.cap 0, cap := buf.cap * 2 }
  else buf

/-- `strbuf_append` -/
def strbufAppend (buf : Strbuf) (ch : UInt8) : Strbuf :=
  let b := strbufGrow buf
  { b with p := (b.p.set b.len ch).set (b.len + 1) 0, len := b.len + 1 }

/-- `strbuf_cat` of a C string. -/
def strbufCat (buf : Strbuf) (s : Bytes) : Strbuf := s.foldl strbufAppend buf

/-- `strbuf_append_num` -/
def strbufAppendNum (buf : Strbuf) (x : Int) : Strbuf := strbufCat buf (sprintfD x)

/-- The C string at `buf->p + off`. -/
def Strbuf.str (buf : Strbuf) (off : Nat) : Bytes := cstrAt buf.p off

/-- `buf->p[i] = c` -/
def Strbuf.set (buf : Strbuf) (i : Nat) (c : UInt8) : Strbuf :=
  { buf with p := buf.p.set i c }

/-- The first `len` bytes, as `conn_write(conn, buf.p, buf.len)` sends them. -/
def Strbuf.content (buf : Strbuf) : Bytes := buf.p.take buf.len

end HttpProxy
