import Ch579HttpLed.App.UriParams
import Ch579HttpLed.Foundation.Runs
import Ch579HttpLed.Foundation.Search
import Ch579HttpLed.Net.Pbuf

/-!
# The web server

Model of lwIP's `apps/http/httpd.c` as this firmware builds it: no POST, no CGI,
no SSI, no persistent connections, no extended status pages, requests collected
over several pbufs.  `http_find_file` carries the hook call that this repository
added.  The file image is generated at build time and is a parameter; the
outcomes of `tcp_write` and `tcp_close` belong to the event that needs them.
-/

namespace Ch579HttpLed
namespace Http

open App Foundation Net

/-!
# Options and strings
-/

def minReqLen : Nat := 7

def httpdReqQueuelen : Nat := 5

def httpdMaxReqLength : Nat := min 1023 (httpdReqQueuelen * pbufPoolBufsize)

def httpdReqBufsize : Nat := httpdMaxReqLength

def httpdMaxRequestUriLen : Nat := 63

def httpdMaxRetries : UInt8 := 4

def crlf : List UInt8 := [13, 10]

def getMethod : List UInt8 := cString "GET "

/-- `lwip_strnstr` over a buffer of exactly the searched length. -/
def lwipStrnstr (buffer token : List UInt8) : Option Nat :=
  findToken 0 token buffer

/-- The C string that starts at an index of a buffer. -/
def cStringAt (buffer : List UInt8) (i : Nat) : List UInt8 :=
  (buffer.drop i).takeWhile (fun b => b != 0)

/-!
# Files

`fs_open` places the read index at the end of the file, so no bytes are left
to be read beyond those the connection already holds.
-/

structure FsFile where
  data : List UInt8
  headerIncluded : Bool

structure FsdataFile where
  name : List UInt8
  file : FsFile

def fsOpen (fsRoot : List FsdataFile) (name : List UInt8) : Option FsFile :=
  (fsRoot.find? (fun f => f.name = name)).map FsdataFile.file

/-!
# Connections

A connection has the callback argument `hs`, `none` for a null pointer, and the
callbacks registered with it.  `req` is the chain of pbufs kept for a request
that is not complete.
-/

structure HttpState where
  handle : Option FsFile
  file : Option (List UInt8)
  left : Nat
  retries : UInt8
  req : List (List UInt8)

def httpStateInit : HttpState := ⟨none, none, 0, 0, []⟩

structure HttpConn where
  hs : Option HttpState
  recvSet : Bool
  sentSet : Bool
  pollSet : Bool

/-- A connection as `http_accept` leaves it. -/
def httpAccept : HttpConn := ⟨some httpStateInit, true, true, true⟩

/-- What the hook acts on, and the arguments it was called with so far. -/
structure HookState where
  actions : Actions
  called : List (List UInt8)

def callHook (uri : List UInt8) (h : HookState) : HookState where
  actions := httpdGETUriParamsParse uri h.actions
  called := h.called ++ [uri]

/-- Outcomes of the TCP calls that serving one event may make. -/
structure TcpOutcome where
  written : Option Nat   -- bytes that tcp_write took, none for an error
  closed : Bool          -- tcp_close succeeded

/-!
# Finding and opening a file
-/

def defaultFilenames : List (List UInt8) :=
  [cString "/index.shtml", cString "/index.ssi", cString "/index.shtm",
    cString "/index.html", cString "/index.htm"]

/-- The file name tried for a directory, built in the buffer of `http_uri_buf`. -/
def defaultFileName (uri name : List UInt8) : List UInt8 :=
  let copyLen := min httpdMaxRequestUriLen (uri.length - 1)
  if 0 < copyLen then uri.take copyLen ++ name.take (httpdMaxRequestUriLen - copyLen)
  else name

def httpGet404File (fsRoot : List FsdataFile) : Option FsFile :=
  [cString "/404.html", cString "/404.htm", cString "/404.shtml"].findSome?
    (fsOpen fsRoot)

/-- An HTTP/0.9 answer leaves the header of the file out. -/
def httpInitFile (hs : HttpState) (file : Option FsFile) (is09 : Bool) : HttpState :=
  match file with
  | some f =>
      let hs := { hs with
        handle := some f
        file := some f.data
        left := f.data.length
        retries := 0 }
      if is09 && f.headerIncluded then
        match lwipStrnstr f.data (crlf ++ crlf) with
        | some i => { hs with file := some (f.data.drop (i + 4)), left := hs.left - (i + 4) }
        | none => hs
      else hs
  | none => { hs with handle := none, file := none, left := 0, retries := 0 }

def findRequestedFile (fsRoot : List FsdataFile) (uri : List UInt8) : Option FsFile :=
  let directory :=
    if uri.getLast? = some 47 then
      defaultFilenames.findSome? (fun name => fsOpen fsRoot (defaultFileName uri name))
    else none
  let named := fsOpen fsRoot (uri.takeWhile (fun b => b != 63))
  (directory.or named).or (httpGet404File fsRoot)

def httpFindFile (fsRoot : List FsdataFile) (hs : HttpState) (uri : List UInt8)
    (is09 : Bool) (h : HookState) : HttpState × HookState :=
  let h := callHook uri h
  (httpInitFile hs (findRequestedFile fsRoot uri) is09, h)

/-!
# Sending and closing
-/

/-- `http_close_conn`: all callbacks are dropped; a failed close is retried by polling. -/
def httpCloseConn (io : TcpOutcome) : HttpConn where
  hs := none
  recvSet := false
  sentSet := false
  pollSet := !io.closed

/-- `http_send`: without bytes left the connection is closed, else some are written. -/
def httpSend (io : TcpOutcome) (c : HttpConn) : HttpConn :=
  match c.hs with
  | none => c
  | some hs =>
      if hs.left = 0 then httpCloseConn io
      else
        match io.written with
        | none => c
        | some n =>
            let len := min n (min hs.left 0xffff)
            let hs := { hs with
              file := hs.file.map (fun data => data.drop len)
              left := hs.left - len }
            if hs.left = 0 then httpCloseConn io else { c with hs := some hs }

/-!
# Parsing a request
-/

inductive ParseErr where
  | ok
  | inProgress
  | arg
  | use
deriving DecidableEq, Repr

/-- The `tot_len` of the head of the request chain. -/
def reqTotLen (req : List (List UInt8)) : Nat :=
  req.flatten.length % 65536

/-- The bytes a parse works on: the payload itself or a copy of the chain. -/
def reqData (req : List (List UInt8)) : List UInt8 :=
  match req with
  | [payload] => payload
  | _ => pbufCopyPartial req (min (reqTotLen req) httpdMaxReqLength) 0

/-- What a scan of the data asks for. -/
inductive ReqScan where
  | incomplete
  | unsupported
  | complete (uri : List UInt8) (is09 : Bool)
deriving DecidableEq, Repr

/-- The end of the URI: a space, or the line end for HTTP/0.9. -/
def uriEnd (rest : List UInt8) : Option Nat × Bool :=
  match lwipStrnstr rest [32] with
  | some i => (some i, false)
  | none => (lwipStrnstr rest crlf, true)

def scanRequest (data : List UInt8) : ReqScan :=
  if data.length < minReqLen then .incomplete
  else
    match lwipStrnstr data crlf with
    | none => .incomplete
    | some _ =>
        if data.take 4 = getMethod then
          match uriEnd (data.drop 4) with
          | (none, _) => .incomplete
          | (some uriLen, is09) =>
              match lwipStrnstr data (crlf ++ crlf) with
              | none => .incomplete
              | some _ =>
                  let data := data.set 3 0
                  let data := data.set (4 + uriLen) 0
                  .complete (cStringAt data 4) is09
        else .unsupported

def httpParseRequest (fsRoot : List FsdataFile) (inp : List (List UInt8))
    (hs : HttpState) (h : HookState) : ParseErr × HttpState × HookState :=
  if hs.handle.isSome || hs.file.isSome then (.use, hs, h)
  else
    let hs := { hs with req := hs.req ++ inp }
    match scanRequest (reqData hs.req) with
    | .unsupported => (.arg, hs, h)
    | .complete uri is09 =>
        let r := httpFindFile fsRoot hs uri is09 h
        (.ok, r.1, r.2)
    | .incomplete =>
        if reqTotLen hs.req <= httpdReqBufsize ∧ hs.req.length <= httpdReqQueuelen then
          (.inProgress, hs, h)
        else (.arg, hs, h)

/-!
# Callbacks
-/

/-- A received chain is `none` when the other side has closed. -/
inductive HttpEvent where
  | recv (ok : Bool) (p : Option PbufChain) (io : TcpOutcome)
  | sent (io : TcpOutcome)
  | poll (io : TcpOutcome)
  | err

structure HttpSystem where
  conn : HttpConn
  hook : HookState

/-- What `http_recv` does with the result of a parse. -/
def httpRecvParsed (io : TcpOutcome) (c : HttpConn) :
    ParseErr × HttpState × HookState -> HttpSystem
  | (.inProgress, hs, h) => { conn := { c with hs := some hs }, hook := h }
  | (.ok, hs, h) =>
      { conn := httpSend io { c with hs := some { hs with req := [] } }, hook := h }
  | (.arg, _, h) => { conn := httpCloseConn io, hook := h }
  | (.use, hs, h) => { conn := { c with hs := some { hs with req := [] } }, hook := h }

def httpRecv (fsRoot : List FsdataFile) (ok : Bool) (p : Option PbufChain)
    (io : TcpOutcome) (s : HttpSystem) : HttpSystem :=
  match ok, p, s.conn.hs with
  | true, some p, some hs =>
      if hs.handle.isNone then
        httpRecvParsed io s.conn (httpParseRequest fsRoot p.payloads hs s.hook)
      else s
  | _, _, _ => { s with conn := httpCloseConn io }

def httpSent (io : TcpOutcome) (c : HttpConn) : HttpConn :=
  match c.hs with
  | none => c
  | some hs => httpSend io { c with hs := some { hs with retries := 0 } }

def httpPoll (io : TcpOutcome) (c : HttpConn) : HttpConn :=
  match c.hs with
  | none => httpCloseConn io
  | some hs =>
      let hs := { hs with retries := hs.retries + 1 }
      let c := { c with hs := some hs }
      if hs.retries = httpdMaxRetries then httpCloseConn io
      else if hs.handle.isSome then httpSend io c
      else c

/-- Events reach the callbacks that are registered for them. -/
def httpStep (fsRoot : List FsdataFile) (s : HttpSystem) : HttpEvent -> HttpSystem
  | .recv ok p io => if s.conn.recvSet then httpRecv fsRoot ok p io s else s
  | .sent io => if s.conn.sentSet then { s with conn := httpSent io s.conn } else s
  | .poll io => if s.conn.pollSet then { s with conn := httpPoll io s.conn } else s
  | .err => { s with conn := ⟨none, false, false, false⟩ }

end Http
end Ch579HttpLed
