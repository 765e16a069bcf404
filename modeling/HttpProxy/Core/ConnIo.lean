/-
  HttpProxy.Core.ConnIo

  core/conn_io.c: the buffered reader and writer of a connection, as programs
  over the operations a coroutine performs on its two connections: the client
  and one server.

  A program names a connection by its `Role`; which `struct conn` that is, and
  what the kernel answers, is decided where programs are run.  `recv` and `send`
  are answered with the bytes moved, with 0, with EAGAIN or with another error.
  `yield` is `async_yield(CONN_IO_WILL_BLOCK, ..)` on the connection's descriptor
  and `ub` stands for a call whose behaviour C leaves undefined.  `mark` has no
  effect: it names the answer whose bytes the following writes to the client
  belong to.
-/

import HttpProxy.Lib.Prog
import HttpProxy.Core.Strbuf

namespace HttpProxy

open Lib

/-- The connections a handler works on: its client, and one server. -/
inductive Role where
  | client
  | server
deriving DecidableEq, Repr

/-- `EPOLLIN` or `EPOLLOUT`, as a wait names it. -/
inductive Dir where
  | read
  | write
deriving DecidableEq, Repr

inductive MainStat where
  | running
  | exiting
deriving DecidableEq, Repr

inductive ConnStat where
  | used
  | free
  | closed
deriving DecidableEq, Repr

/-- The read buffer of a `struct conn` (`buf_e` is the length of `buf`) and its
    byte counters. -/
structure IoBuf where
  buf : Bytes
  bufS : Nat
  rx : Int
  tx : Int

/-- The two system calls of `conn_try_io`. -/
inductive SysReq where
  | recv (len : Nat)
  | send (data : Bytes)

def SysReq.dir : SysReq → Dir
  | recv _ => .read
  | send _ => .write

/-- What the kernel answers: bytes moved, 0, EAGAIN, or another error. -/
inductive SysRes where
  | ok (bs : Bytes)
  | zero
  | again
  | err

/-- An answer the proxy writes to a client. -/
inductive Ans where
  | bad400
  | bad502
  | ok200
  | rsp (code : Int)
  | tunnel
deriving DecidableEq, Repr

inductive IoOp where
  | mainStat
  | stat (r : Role)
  | getBuf (r : Role)
  | setBuf (r : Role) (b : IoBuf)
  | sys (r : Role) (q : SysReq)
  | yield (r : Role) (d : Dir)
  | close (r : Role)
  | mark (a : Ans)
  | log (size : Int)
  | ub

abbrev IoOp.Res : IoOp → Type
  | mainStat => MainStat
  | stat _ => ConnStat
  | getBuf _ => IoBuf
  | setBuf _ _ => Unit
  | sys _ _ => SysRes
  | yield _ _ => Int
  | close _ => Unit
  | mark _ => Unit
  | log _ => Unit
  | ub => Empty

abbrev Io := Prog IoOp IoOp.Res

namespace Io

def mainStat : Io MainStat := Prog.op IoOp.mainStat
def stat (r : Role) : Io ConnStat := Prog.op (IoOp.stat r)
def getBuf (r : Role) : Io IoBuf := Prog.op (IoOp.getBuf r)
def setBuf (r : Role) (b : IoBuf) : Io Unit := Prog.op (IoOp.setBuf r b)
def sys (r : Role) (q : SysReq) : Io SysRes := Prog.op (IoOp.sys r q)
def yield (r : Role) (d : Dir) : Io Int := Prog.op (IoOp.yield r d)
def close (r : Role) : Io Unit := Prog.op (IoOp.close r)
def mark (a : Ans) : Io Unit := Prog.op (IoOp.mark a)
def log (size : Int) : Io Unit := Prog.op (IoOp.log size)
def ub {α : Type} : Io α := Prog.call .ub fun e => nomatch e

end Io

/-- `conn_try_io`: the bytes moved, or `none` for -1.  The value a wait returns
    is ignored: the call is tried again. -/
def connTryIo (r : Role) (q : SysReq) (canBlock : Bool) : Io (Option Bytes) :=
  Prog.loop (fun _ : Unit => do
    match ← Io.mainStat with
    | .exiting => return .inr none
    | .running =>
        match ← Io.sys r q with
        | .ok bs => return .inr (some bs)
        | .zero => return .inr none
        | .err => return .inr none
        | .again =>
            if canBlock then do
              let _ ← Io.yield r q.dir
              return .inl ()
            else return .inr none) ()

/-- `conn->stat != CONN_CLOSED`, the last argument of every `conn_try_io`. -/
def connOpen (r : Role) : Io Bool := do
  let st ← Io.stat r
  return st != .closed

/-- The loop of `conn_read`; `got` is what has been stored at `buf`. -/
def connReadLoop (r : Role) (len : Nat) (got : Bytes) : Io (Int × Bytes) :=
  Prog.loop (fun (x : Nat × Bytes) => do
    if x.1 = 0 then return .inr (0, x.2)
    else do
      let canBlock ← connOpen r
      match ← connTryIo r (.recv x.1) canBlock with
      | none => do
          Io.close r
          return .inr (-1, x.2)
      | some bs => return .inl (x.1 - bs.length, x.2 ++ bs)) (len, got)

/-- `conn_read`: the return value and the bytes stored at `buf`. -/
def connRead (r : Role) (len : Nat) : Io (Int × Bytes) := do
  match ← Io.stat r with
  | .closed => do
      Io.close r
      return (-1, [])
  | _ => do
      let b ← Io.getBuf r
      if b.bufS < b.buf.length then do
        -- Copy from conn buf
        let copyLen := min (b.buf.length - b.bufS) len
        Io.setBuf r { b with bufS := b.bufS + copyLen }
        connReadLoop r (len - copyLen) ((b.buf.drop b.bufS).take copyLen)
      else connReadLoop r len []

/-- `conn_getc` -/
def connGetc (r : Role) : Io Int := do
  let b ← Io.getBuf r
  match b.buf[b.bufS]? with
  | some c => do
      Io.setBuf r { b with bufS := b.bufS + 1 }
      return charToInt c
  | none => do
      Io.setBuf r { b with buf := [], bufS := 0 }
      let canBlock ← connOpen r
      match ← connTryIo r (.recv CONN_IOBUF_SIZE) canBlock with
      | none => do
          Io.close r
          return -1
      | some bs => do
          let b ← Io.getBuf r
          Io.setBuf r { b with buf := bs, bufS := 1, rx := toInt32 (b.rx + 1) }
          return charToInt (bs.headD 0)

/-- `conn_ungetc` -/
def connUngetc (r : Role) : Io Unit := do
  let b ← Io.getBuf r
  if b.bufS = 0 then return ()
  else Io.setBuf r { b with bufS := b.bufS - 1, rx := toInt32 (b.rx - 1) }

/-- The conversion of an `int` to the `char` stored in a buffer. -/
def intToChar (ch : Int) : UInt8 := UInt8.ofNat (ch % 256).toNat

/-- `conn_gets`: the return value and the extended buffer. -/
def connGets (r : Role) (lenLimit : Nat) (buf : Strbuf) : Io (Int × Strbuf) :=
  Prog.loop (fun (x : Int × Strbuf) => do
    if x.2.len + 1 = lenLimit then return .inr (-1, x.2)
    else do
      let ch ← connGetc r
      if ch = -1 then return .inr (-1, x.2)
      else if ch = 10 then return .inr x
      else if ch = 13 then do
        -- Try to consume \n
        let ch ← connGetc r
        if ch = -1 then return .inr (-1, x.2)
        else if ch = 10 then return .inr x
        else do
          connUngetc r
          return .inr x
      else return .inl (x.1 + 1, strbufAppend x.2 (intToChar ch))) (0, buf)

/-- The loop of `conn_write`. -/
def connWriteLoop (r : Role) (data : Bytes) : Io Int :=
  Prog.loop (fun data : Bytes => do
    if data.isEmpty then return .inr 0
    else do
      let canBlock ← connOpen r
      match ← connTryIo r (.send data) canBlock with
      | none => do
          Io.close r
          return .inr (-1)
      | some bs => do
          let b ← Io.getBuf r
          Io.setBuf r { b with tx := toInt32 (b.tx + bs.length) }
          return .inl (data.drop bs.length)) data

/-- `conn_write` -/
def connWrite (r : Role) (data : Bytes) : Io Int := do
  match ← Io.stat r with
  | .closed => do
      Io.close r
      return -1
  | _ => connWriteLoop r data

/-- `conn_write(out, p, n)` for the first `n` of the bytes at `p`: with a negative
    `n` the call reads outside the buffer. -/
def connWriteN (r : Role) (data : Bytes) (n : Int) : Io Int :=
  if n < 0 then Io.ub else connWrite r (data.take n.toNat)

/-- `conn_in->buf_s += copy_len; conn_in->rx += copy_len;` -/
def connAdvance (r : Role) (copyLen : Int) : Io Unit := do
  let b ← Io.getBuf r
  Io.setBuf r { b with bufS := b.bufS + copyLen.toNat, rx := toInt32 (b.rx + copyLen) }

/-- The loop of `conn_copy`. -/
def connCopyLoop (out inp : Role) (len : Int) : Io Int :=
  Prog.loop (fun len : Int => do
    if len = 0 then return .inr 0
    else do
      -- Read buf is empty
      let b ← Io.getBuf inp
      Io.setBuf inp { b with buf := [], bufS := 0 }
      let canBlock ← connOpen inp
      match ← connTryIo inp (.recv CONN_IOBUF_SIZE) canBlock with
      | none => do
          Io.close inp
          return .inr (-1)
      | some bs => do
          let b ← Io.getBuf inp
          Io.setBuf inp { b with buf := bs, bufS := 0 }
          let copyLen : Int := if len > bs.length then bs.length else len
          let ret ← connWriteN out bs copyLen
          if ret = -1 then return .inr (-1)
          else do
            connAdvance inp copyLen
            return .inl (len - copyLen)) len

/-- `conn_copy`: first what is buffered (the result of that write is ignored),
    then what arrives. -/
def connCopy (out inp : Role) (len : Int) : Io Int := do
  let b ← Io.getBuf inp
  if b.bufS < b.buf.length then do
    let bufLen : Int := b.buf.length - b.bufS
    let copyLen : Int := if bufLen > len then len else bufLen
    let _ ← connWriteN out (b.buf.drop b.bufS) copyLen
    connAdvance inp copyLen
    connCopyLoop out inp (len - copyLen)
  else connCopyLoop out inp len

end HttpProxy
