/-
  HttpProxy.Core.NetHttp

  The parts of core/net_handle.c and core/net_http.c that only do I/O on the
  client and one server: fetching a head, relaying a body, the error answers and
  the response handlers.  What touches the shared `net_handle_cxt` (the request
  list, the pool, the events) is in HttpProxy.System.
-/

import HttpProxy.Core.ConnIo
import HttpProxy.Core.NetData

namespace HttpProxy

open Lib

/-! ## Handlers by method -/

/-- The two pairs of handlers `net_http_module_init` registers. -/
inductive HandlerKind where
  | http
  | connect
deriving DecidableEq, Repr

/-- `method_strcmp` on the strings at its arguments: the second ends at a NUL or a
    space. -/
def methodStrcmp : Bytes → Bytes → Bool
  | [], [] => true
  | [], b :: _ => b = 32
  | _ :: _, [] => false
  | a :: m0, b :: m1 => if b = 32 then false else if a = b then methodStrcmp m0 m1 else false

/-- The table `net_http_module_init` fills, in order. -/
def handlers : List (Bytes × HandlerKind) :=
  [(bytesOf "GET", .http), (bytesOf "POST", .http), (bytesOf "HEAD", .http),
    (bytesOf "PUT", .http), (bytesOf "DELETE", .http), (bytesOf "CONNECT", .connect)]

/-- `net_get_handler` -/
def netGetHandler (method : Bytes) : Option HandlerKind :=
  (handlers.find? fun h => methodStrcmp h.1 method).map (·.2)

/-! ## Fetching a head -/

/-- `net_fetch_headers` -/
def netFetchHeaders (conn : Role) (data : NetData) : Io (Int × NetData) :=
  Prog.loop (fun data : NetData => do
    let p0 := data.buf.len
    let (ret, buf) ← connGets conn HTTP_HEADER_MAXLEN data.buf
    if ret ≤ 0 then return .inr (ret, { data with buf })
    else do
      let (data, ret) := netParseHeader { data with buf := strbufAppend buf 0 } p0
      if ret ≠ 0 then return .inr (-1, data) else return .inl data) data

/-- `net_fetch_http` -/
def netFetchHttp (conn : Role) (data : NetData) : Io (Int × NetData) := do
  -- Fetch startline
  let (ret, buf) ← connGets conn HTTP_HEADER_MAXLEN data.buf
  if ret ≤ 0 then return (ret, { data with buf })
  else
    -- Fetch headers
    netFetchHeaders conn { data with buf := strbufAppend buf 0 }

/-! ## Answers of the proxy itself -/

def msg400 : Bytes := bytesOf "HTTP/1.1 400 Bad Request\r\nServer: http-proxy\r\n\r\n"

def msg502 : Bytes := bytesOf "HTTP/1.1 502 Bad Gateway\r\nServer: http-proxy\r\n\r\n"

def msg200 : Bytes := bytesOf "HTTP/1.1 200 OK\r\n\r\n"

/-- `net_bad_request` -/
def netBadRequest (conn : Role) : Io Unit := do
  match ← Io.stat conn with
  | .closed => return ()
  | _ => do
      Io.mark .bad400
      let _ ← connWrite conn msg400
      Io.close conn

/-- `net_bad_gateway` -/
def netBadGateway (conn : Role) : Io Unit := do
  match ← Io.stat conn with
  | .closed => return ()
  | _ => do
      Io.mark .bad502
      let _ ← connWrite conn msg502
      return ()

/-! ## Bodies -/

/-- The chunk loop of `net_transfer_body_HTTP_1_1`: its `ret` and the buffer. -/
def netTransferChunks (dst src : Role) (buf : Strbuf) : Io (Int × Strbuf) :=
  Prog.loop (fun buf : Strbuf => do
    let (ret, buf) ← connGets src HTTP_CHUNK_HEADER_MAXLEN (strbufReset buf)
    if ret ≤ 0 then return .inr (-1, buf)
    else do
      let buf := strbufCat buf (bytesOf "\r\n")
      let ret ← connWrite dst buf.content
      if ret ≠ 0 then return .inr (ret, buf)
      else do
        let len := (sscanfX (buf.str 0)).getD (-1)
        if len = 0 then return .inr (0, buf)
        else do
          -- Also copy the \r\n
          let ret ← connCopy dst src (toInt32 (len + 2))
          if ret ≠ 0 then return .inr (ret, buf) else return .inl buf) buf

/-- The trailer loop of `net_transfer_body_HTTP_1_1`. -/
def netTransferTrailer (dst src : Role) (buf : Strbuf) : Io Int :=
  Prog.loop (fun buf : Strbuf => do
    let (ret, buf) ← connGets src HTTP_HEADER_MAXLEN (strbufReset buf)
    if ret < 0 then return .inr ret
    else do
      let buf := strbufCat buf (bytesOf "\r\n")
      let wret ← connWrite dst buf.content
      if wret ≠ 0 then return .inr (-1)
      else if ret = 0 then return .inr 0
      else return .inl buf) buf

/-- The part of `net_transfer_body_HTTP_1_1` for a body that is not chunked. -/
def netTransferLength (dst src : Role) (data : NetData) : Io Int :=
  let len := ((netDataGetEnt data (bytesOf "Content-Length")).map atoi).getD 0
  if len > 0 then connCopy dst src len else return 0

/-- `net_transfer_body_HTTP_1_1` -/
def netTransferBody (dst src : Role) (data : NetData) : Io Int :=
  if data.buf.str 0 = bytesOf "HEAD" then return 0
  else if netDataGetEnt data (bytesOf "Transfer-Encoding") = some (bytesOf "chunked") then do
    let (ret, buf) ← netTransferChunks dst src strbufInit
    if ret = 0 then netTransferTrailer dst src buf else return ret
  else netTransferLength dst src data

/-! ## Response handlers -/

/-- The relay of a response of HTTP/1.0 or below: all that comes until a copy fails. -/
def netRelayHttp10 : Io Int := do
  let ret ← Prog.loop (fun _ : Unit => do
    let ret ← connCopy .client .server (64 * 1024)
    if ret < 0 then return .inr 0 else return .inl ()) ()
  Io.close .client
  Io.close .server
  return ret

/-- `net_forward_rsp_header`: the result of the write is ignored. -/
def netForwardRspHeader (rsp : NetRsp) (conn : Role) : Io Int := do
  let _ ← connWrite conn (rspHeader rsp).content
  return 0

/-- `rsp->ver_major*100+rsp->ver_minor`, which is computed in an `int`. -/
def NetRsp.version (rsp : NetRsp) : Int := toInt32 (rsp.verMajor * 100 + rsp.verMinor)

/-- `net_http_rsp_handler` from the forwarded head on. -/
def netRelayRsp (rsp : NetRsp) : Io Int := do
  Io.mark (.rsp rsp.code)
  let _ ← netForwardRspHeader rsp .client
  let ret ←
    if rsp.version > 100 then netTransferBody .client .server rsp.data
    else netRelayHttp10
  let b ← Io.getBuf .client
  Io.log b.tx
  return if ret = 0 then rsp.code else ret

/-- `net_http_rsp_handler` -/
def netHttpRspHandler (heap : Nat → Bytes) : Io Int := do
  let b ← Io.getBuf .client
  Io.setBuf .client { b with tx := 0 }
  let (ret, data) ← netFetchHttp .server (netDataInit heap)
  if ret ≠ 0 then do
    -- Failed to fetch response from server
    Io.close .server
    netBadGateway .client
    return ret
  else do
    let (rsp, ret) := netParseRsp { data, code := 0, verMajor := 0, verMinor := 0, httpMsg := 0 }
    if ret ≠ 0 then do
      Io.close .server
      netBadGateway .client
      return ret
    else netRelayRsp rsp

/-- The copy loop of a CONNECT handler: it ends with the first failing copy. -/
def netTunnel (out inp : Role) : Io Int :=
  Prog.loop (fun _ : Unit => do
    let ret ← connCopy out inp (64 * 1024)
    if ret ≠ 0 then return .inr ret else return .inl ()) ()

/-- `net_connect_rsp_handler` -/
def netConnectRspHandler : Io Int := do
  Io.mark .tunnel
  netTunnel .client .server

/-- `h0->rsp_handler` -/
def rspHandler (heap : Nat → Bytes) : HandlerKind → Io Int
  | .http => netHttpRspHandler heap
  | .connect => netConnectRspHandler

end HttpProxy
