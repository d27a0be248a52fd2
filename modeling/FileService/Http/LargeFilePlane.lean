import FileService.Http.Dispatch
import FileService.Http.Framing

/-!
# The large-file plane

A second listener that only serves downloads. It parses the heads of requests
by itself, hands them to the same handler as the control plane, and writes the
responses itself, by `sendfile` where the source has a descriptor. Only the
heads are ever read from a connection.
-/
namespace FileService.Http
open FileService.Common FileService.Domain
open FileService.Wire (findText blankLine)

structure PlaneOptions where
  useSendfile : Bool := true
  sendfileChunkBytes : Int := 2 ^ 30
  basePath : String := "/api/file"
  errorFormat : String := "apperror"
  idleTimeoutSec : Int := 60
  keepAliveMaxCount : Int := 100
  maxUriBytes : Int := 8192
  maxHeaderBytes : Int := 16384
  userspaceBufferBytes : Int := 64 * 1024
deriving DecidableEq, Repr

/-! ## Heads -/

/-- What a call of `recv` returns. An error other than a timeout ends the connection as well. -/
inductive Recv where
  | data (octets : List Char)
  | timeout
  | closed
deriving DecidableEq, Repr

inductive HeadStatus where
  | ok (headEnd : Nat)
  | closed
  | timeout
  | tooLarge
deriving DecidableEq, Repr

/-- What a call adds to the buffer, or how it ends the reading. -/
def Recv.received : Recv → Except HeadStatus (List Char)
  | .data octets => if octets = [] then .error .closed else .ok octets
  | .timeout => .error .timeout
  | .closed => .error .closed

/-- `ReadHead`: how it ends, what has been received by then, and the calls still to come. -/
def readHead (opts : PlaneOptions) : List Recv → List Char → HeadStatus × List Char × List Recv
  | [], pending =>
    match findText blankLine pending with
    | some headEnd => (.ok headEnd, pending, [])
    | none =>
      if opts.maxHeaderBytes + opts.maxUriBytes < pending.length then (.tooLarge, pending, [])
      else (.closed, pending, [])
  | call :: calls, pending =>
    match findText blankLine pending with
    | some headEnd => (.ok headEnd, pending, call :: calls)
    | none =>
      if opts.maxHeaderBytes + opts.maxUriBytes < pending.length then
        (.tooLarge, pending, call :: calls)
      else
        match call.received with
        | .ok octets => readHead opts calls (pending ++ octets)
        | .error status => (status, pending, calls)

structure Parsed where
  method : Method
  methodRaw : String
  path : String
  query : String
  headers : HeaderMap
  contentLength : Int
  isChunked : Bool
deriving Repr

/-- The texts before the first space and between the first two, if there are two. -/
def requestLine (line : List Char) : Option (List Char × List Char) :=
  match line.idxOf? ' ' with
  | none => none
  | some sp1 =>
    let rest := line.drop (sp1 + 1)
    match rest.idxOf? ' ' with
    | none => none
    | some sp2 => some (line.take sp1, rest.take sp2)

/-- The header lines, one after the other; empty ones are passed over. -/
def parseHeaderLines : List (List Char) → HeaderMap → Except String HeaderMap
  | [], headers => .ok headers
  | line :: lines, headers =>
    match line with
    | [] => parseHeaderLines lines headers
    | c :: _ =>
      if isBlank c = true then .error "obsolete line folding is not accepted"
      else
        match line.idxOf? ':' with
        | none | some 0 => .error "malformed header line"
        | some colon =>
          parseHeaderLines lines (headers.add (String.ofList (line.take colon))
            (String.ofList (trim (line.drop (colon + 1)))))

/-- `ParseHead`, with the status and the text of its errors. -/
def parseHead (opts : PlaneOptions) (head : List Char) : Except (Int × String) Parsed :=
  let lines := Wire.lines head
  match requestLine (lines.headD []) with
  | none => .error (400, "malformed request line")
  | some (method, target) =>
    if opts.maxUriBytes < target.length then
      .error (414, "request target exceeds " ++ toString opts.maxUriBytes ++ " bytes")
    else
      match parseHeaderLines lines.tail {} with
      | .error detail => .error (400, detail)
      | .ok headers =>
        .ok
          { method := parseMethod (String.ofList method)
            methodRaw := String.ofList method
            path := String.ofList (target.takeWhile (· ≠ '?'))
            query := String.ofList ((target.dropWhile (· ≠ '?')).drop 1)
            headers
            contentLength :=
              match (headers.get "Content-Length").bind parsedNumber with
              | some value => if 0 ≤ value then value else -1
              | none => -1
            isChunked := saysChunked headers }

/-! ## Responses -/

structure Outgoing where
  status : Int
  headers : HeaderMap
  body : String
  stream : Option ByteSource
  offset : Int := 0
  length : Int := 0
  headOnly : Bool
  closeConnection : Bool := false

def PlaneOptions.error (opts : PlaneOptions) (status : Int) (detail : String) : Response :=
  errorResponse opts.errorFormat status detail

/-- `Prepare`: the range is applied here, and several ranges become the whole. -/
def prepare (opts : PlaneOptions) (request : Request) (response : Response) : Outgoing :=
  let out : Outgoing :=
    { status := response.status, headers := response.headers, body := response.body,
      stream := response.stream, headOnly := request.isHead }
  let total := response.streamLength
  let replaced (res : Response) : Outgoing :=
    { out with status := res.status, headers := res.headers, body := res.body, stream := none }
  match response.stream with
  | none => out
  | some _ =>
    if total < 0 then replaced (opts.error 500 "unknown-length stream is not supported yet")
    else
      let whole := { out with length := total }
      match request.headers.get "Range" with
      | none => whole
      | some header =>
        match parseRangeHeader header total with
        | .absent => whole
        | .single range =>
          { whole with
            status := 206
            offset := range.first
            length := range.length
            headers := out.headers.set "Content-Range" (formatContentRange range total) }
        | .multiple _ => { whole with status := 200 }
        | .malformed _ => { whole with status := 200 }
        | .unsatisfiable detail =>
          let unmet := replaced (opts.error 416 detail)
          { unmet with
            headers := unmet.headers.set "Content-Range" (formatUnsatisfiedContentRange total) }

def reasonPhrase (status : Int) : String :=
  if status = 200 then "OK"
  else if status = 201 then "Created"
  else if status = 204 then "No Content"
  else if status = 206 then "Partial Content"
  else if status = 400 then "Bad Request"
  else if status = 401 then "Unauthorized"
  else if status = 403 then "Forbidden"
  else if status = 404 then "Not Found"
  else if status = 405 then "Method Not Allowed"
  else if status = 408 then "Request Timeout"
  else if status = 413 then "Payload Too Large"
  else if status = 414 then "URI Too Long"
  else if status = 416 then "Range Not Satisfiable"
  else if status = 431 then "Request Header Fields Too Large"
  else if status = 500 then "Internal Server Error"
  else if status = 503 then "Service Unavailable"
  else "Error"

inductive Payload where
  | text (s : String)
  | octets (b : Bytes)
deriving DecidableEq, Repr

/-- What has been written to the socket. -/
structure Written where
  status : Int
  headers : HeaderMap
  payload : Payload
deriving DecidableEq, Repr

def Written.statusLine (w : Written) : String :=
  "HTTP/1.1 " ++ toString w.status ++ " " ++ reasonPhrase w.status ++ "\r\n"

/-- `PumpStream`: the octets sent, and whether they are all that were announced. Both loops are
the same but for who limits a single transfer: the kernel or the source. -/
def pumpStream (opts : PlaneOptions) (kernel : Nat → Nat) (out : Outgoing) (source : ByteSource) :
    Bytes × Bool :=
  if out.length ≤ 0 then ([], true)
  else if source.seek out.offset = false then ([], false)
  else
    let remaining := out.length.toNat
    let sent :=
      if source.nativeFd = true ∧ opts.useSendfile = true then
        let chunk := if 0 < opts.sendfileChunkBytes then opts.sendfileChunkBytes.toNat else remaining
        { source with short := kernel }.readLoop (max 1 chunk) remaining remaining
          out.offset.toNat 0
      else
        let capacity :=
          if 0 < opts.userspaceBufferBytes then opts.userspaceBufferBytes.toNat else 64 * 1024
        source.readLoop capacity remaining remaining out.offset.toNat 0
    (sent, decide (sent.length = remaining))

/-- `WriteResponse`, as far as the socket takes it: what is written, whether it is complete,
and whether the connection is to be closed afterwards. -/
def writeResponse (opts : PlaneOptions) (kernel : Nat → Nat) (request : Request) (out : Outgoing)
    (served : Nat) : Written × Bool × Bool :=
  let typed :=
    if out.stream.isNone ∧ out.headers.get "Content-Type" = none ∧ out.body ≠ "" then
      out.headers.set "Content-Type" "text/plain"
    else out.headers
  let contentLength : Int :=
    match out.stream with
    | some _ => out.length
    | none => out.body.length
  let sized := (typed.remove "Content-Length").set "Content-Length" (toString contentLength)
  let closeAfter : Bool :=
    out.closeConnection || decide (max 1 opts.keepAliveMaxCount ≤ served + 1) ||
      request.headers.value "Connection" == "close"
  let headers := if closeAfter = true then sized.set "Connection" "close" else sized
  let (payload, complete) : Payload × Bool :=
    if out.headOnly = true then (.text "", true)
    else
      match out.stream with
      | some source =>
        let (sent, complete) := pumpStream opts kernel out source
        (.octets sent, complete)
      | none => (.text out.body, true)
  ({ status := out.status, headers, payload }, complete, closeAfter)

/-! ## One connection -/

/-- What a connection meets: the handler, the generated ids, how the socket takes what is
written, and whether the plane has been stopped; each but the first by the number of requests
served before. -/
structure Plane where
  opts : PlaneOptions
  handler : Request → Outcome
  uuid : Nat → String
  kernel : Nat → Nat → Nat
  sends : Nat → Bool
  stopRequested : Nat → Bool

structure Connection where
  calls : List Recv
  pending : List Char := []
  served : Nat := 0
  /-- The position in the stream of what comes first in `pending`. -/
  position : Nat := 0
deriving DecidableEq, Repr

/-- One turn of the loop: where it read, which octets it took as a head, which request it
handed to the handler, and what it wrote. -/
structure Visit where
  offset : Nat
  octets : List Char
  head : Option (List Char)
  called : Option Request
  written : Option Written

/-- The request that a parsed head makes. -/
def Plane.request (plane : Plane) (served : Nat) (parsed : Parsed) : Request :=
  let cid := parsed.headers.value "x-correlation-id"
  { method := parsed.method
    methodRaw := parsed.methodRaw
    path := parsed.path
    query := parsed.query
    headers := parsed.headers
    contentLength := parsed.contentLength
    isChunked := parsed.isChunked
    isHead := parsed.method = .head
    correlationId := if cid = "" then plane.uuid served else cid }

def PlaneOptions.transferPath (opts : PlaneOptions) : String := opts.basePath ++ "/v1/transfer/"

/-- The token of a transfer path. -/
def PlaneOptions.token? (opts : PlaneOptions) (path : String) : Option String :=
  if Text.startsWith path opts.transferPath then
    let token := path.toList.drop opts.transferPath.length
    if '/' ∈ token then none else some (String.ofList token)
  else none

/-- The checks before the handler: the token, or the error response. -/
def PlaneOptions.checkRequest (opts : PlaneOptions) (request : Request) : Except Response String :=
  if 1 < request.headers.count "Content-Length" then
    .error (opts.error 400 "duplicate Content-Length headers")
  else if request.isChunked = true ∧ request.headers.count "Content-Length" = 1 then
    .error (opts.error 400 "Content-Length and Transfer-Encoding: chunked together")
  else
    match opts.token? request.path with
    | none =>
      .error (opts.error 404 ("no route for " ++ request.methodRaw ++ " " ++ shownPath request.path))
    | some token =>
      if request.method ≠ .get ∧ request.method ≠ .head then
        let refused := opts.error 405 ("method not allowed on the download plane: " ++
          request.methodRaw ++ " (only GET/HEAD)")
        .error { refused with headers := refused.headers.set "Allow" "GET, HEAD" }
      else .ok token

/-- `CallHandler` -/
def PlaneOptions.called (opts : PlaneOptions) : Outcome → Response
  | .returns res => res
  | .throws (some what) => opts.error 500 ("未预期异常：" ++ what)
  | .throws none => opts.error 500 "未预期异常"

/-- A response after which the connection is closed in any case. -/
def Plane.refuse (plane : Plane) (served : Nat) (request : Request) (res : Response) : Written :=
  let out := { prepare plane.opts request res with closeConnection := true }
  (writeResponse plane.opts (plane.kernel served) request out served).1

/-- The request that the handler gets: the checks have found its token. -/
def Plane.routed (request : Request) (token : String) : Request :=
  { request with routeParams := [("token", token)] }

/-- The answer of the handler, and whether the connection stays open after it. -/
def Plane.answer (plane : Plane) (served : Nat) (request : Request) (pending : List Char) :
    Written × Bool :=
  let out := prepare plane.opts request (plane.opts.called (plane.handler request))
  let keepAlive := decide (out.status < 400)
  let (written, complete, closeAfter) :=
    writeResponse plane.opts (plane.kernel served) request
      { out with closeConnection := !keepAlive } served
  let delivered := complete && plane.sends served
  (written, delivered && !closeAfter && pending.isEmpty && keepAlive)

/-- One turn: the visit, and the connection if it stays open. -/
def Plane.serveOne (plane : Plane) (c : Connection) : Visit × Option Connection :=
  match readHead plane.opts c.calls c.pending with
  | (.closed, received, _) => (⟨c.position, received, none, none, none⟩, none)
  | (.timeout, received, _) =>
    let late := plane.opts.error 408 ("request head idle timeout (no progress within " ++
      toString plane.opts.idleTimeoutSec ++ "s)")
    let written := if received ≠ [] ∨ c.served = 0 then some (plane.refuse c.served {} late) else none
    (⟨c.position, received, none, none, written⟩, none)
  | (.tooLarge, received, _) =>
    let large := plane.opts.error 431 "request head exceeds header limit"
    (⟨c.position, received, none, none, some (plane.refuse c.served {} large)⟩, none)
  | (.ok headEnd, received, calls) =>
    let head := received.take headEnd
    let pending := received.drop (headEnd + 4)
    let visit : Visit := ⟨c.position, received.take (headEnd + 4), some head, none, none⟩
    match parseHead plane.opts head with
    | .error (status, detail) =>
      ({ visit with written := some (plane.refuse c.served {} (plane.opts.error status detail)) },
        none)
    | .ok parsed =>
      let request := plane.request c.served parsed
      match plane.opts.checkRequest request with
      | .error res => ({ visit with written := some (plane.refuse c.served request res) }, none)
      | .ok token =>
        let request := Plane.routed request token
        let answer := plane.answer c.served request pending
        ({ visit with called := some request, written := some answer.1 },
          if answer.2 = true then
            some { calls, pending, served := c.served + 1, position := c.position + headEnd + 4 }
          else none)

/-- `ServeConnection`. Every turn that keeps the connection open has called `recv`. -/
def Plane.serveFrom (plane : Plane) : Nat → Connection → List Visit
  | 0, _ => []
  | fuel + 1, c =>
    if plane.stopRequested c.served = true then []
    else
      let turn := plane.serveOne c
      turn.1 :: match turn.2 with
        | some c' => plane.serveFrom fuel c'
        | none => []

def Plane.serveConnection (plane : Plane) (calls : List Recv) : List Visit :=
  plane.serveFrom (calls.length + 1) { calls }

end FileService.Http
