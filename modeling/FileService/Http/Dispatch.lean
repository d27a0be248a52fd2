import FileService.Http.BodyPump
import FileService.Http.Ranges
import FileService.Interaction.Program

/-!
# Dispatching a request

Routes are tried in the order in which they were added; a path that no route of
its method accepts is not found, also when another method accepts it.

One server object dispatches many requests at a time. Everything a request
needs is its own, but for `last_body_error`: the response to a body that could
not be read is stored in that member and read back from it. The clock readings,
the generated correlation id, the events of the body and the outcome of the
handler are inputs of a dispatch.
-/
namespace FileService.Http
open FileService.Common FileService.Domain FileService.Interaction

/-! ## Routes -/

structure RouteOptions where
  maxBodyBytes : Int := 10 * 1024 * 1024
  streamBody : Bool := false
  allowHead : Bool := true
deriving DecidableEq, Repr

inductive RouteKind where
  | exact
  | param
  | wildcard
deriving DecidableEq, Repr

structure Route where
  method : Method
  pattern : String
  options : RouteOptions
  kind : RouteKind
  segments : List String
  literal : String
deriving DecidableEq, Repr

/-- The segments of a path, without the empty ones. -/
def splitPath (path : String) : List String :=
  ((path.toList.splitOn '/').filter (· ≠ [])).map String.ofList

def makeRoute (method : Method) (pattern : String) (options : RouteOptions) : Route :=
  if 2 ≤ pattern.length ∧ pattern.toList.drop (pattern.length - 2) = ['/', '*'] then
    { method, pattern, options, kind := .wildcard, segments := [],
      literal := String.ofList pattern.toList.dropLast }
  else if Text.containsText pattern "/:" then
    { method, pattern, options, kind := .param, segments := splitPath pattern, literal := "" }
  else
    { method, pattern, options, kind := .exact, segments := splitPath pattern, literal := "" }

/-- Segment by segment; one that starts with a colon accepts everything and is recorded. -/
def matchSegments : List String → List String → Option (List (String × String))
  | [], [] => some []
  | pat :: pats, segment :: segments =>
    match pat.toList with
    | ':' :: name => (matchSegments pats segments).map ((String.ofList name, segment) :: ·)
    | _ => if pat = segment then matchSegments pats segments else none
  | _, _ => none

def Route.accepts (route : Route) (path : String) : Option (List (String × String)) :=
  match route.kind with
  | .wildcard =>
    if Text.startsWith path route.literal then
      some [("*", String.ofList (path.toList.drop route.literal.length))]
    else none
  | _ => matchSegments route.segments (splitPath path)

def matchRoute (method : Method) (path : String) :
    List Route → Option (Route × List (String × String))
  | [] => none
  | route :: routes =>
    if route.method = method then
      match route.accepts path with
      | some params => some (route, params)
      | none => matchRoute method path routes
    else matchRoute method path routes

/-- `AddRoute`: a GET route that allows it accepts HEAD as well. -/
def addRoute (routes : List Route) (method : Method) (pattern : String) (options : RouteOptions) :
    List Route :=
  let added := makeRoute method pattern options
  if options.allowHead ∧ method = .get then
    routes ++ [added, makeRoute .head pattern options]
  else routes ++ [added]

/-! ## The server -/

structure ServerOptions where
  readTimeoutSec : Int := 60
  jsonRequestTimeoutSec : Int := 15
  transferIdleTimeoutSec : Int := 120
  transferBufferBytes : Int := 256 * 1024
  errorFormat : String := "apperror"
deriving DecidableEq, Repr

/-- `httplib::Request`, with the ranges that the library has parsed. -/
structure LibraryRequest where
  method : String
  target : String
  path : String
  headers : HeaderMap
  ranges : List (Int × Int) := []
deriving DecidableEq, Repr

/-! ## The request -/

def isSpace (c : Char) : Bool :=
  c == ' ' || (decide (9 ≤ c.toNat) && decide (c.toNat ≤ 13))

def int64Min : Int := -9223372036854775808

def saturate (n : Int) : Int := max int64Min (min n int64Max)

/-- `strtoll` in base ten: the value, and the text from where the number ends. -/
def strtoll (s : List Char) : Int × List Char :=
  let body := s.dropWhile isSpace
  let (negative, digits) :=
    match body with
    | '-' :: rest => (true, rest)
    | '+' :: rest => (false, rest)
    | rest => (false, rest)
  let number := digits.takeWhile isDigit
  if number = [] then (0, s)
  else (saturate (if negative then -(digitsValue number : Int) else digitsValue number),
    digits.dropWhile isDigit)

/-- The number that makes up a whole C string. -/
def parsedNumber (text : String) : Option Int :=
  match strtoll (text.toList.takeWhile (· ≠ '\x00')) with
  | (value, []) => some value
  | _ => none

def LibraryRequest.contentLength (hreq : LibraryRequest) : Int :=
  let text := hreq.headers.value "Content-Length"
  if text = "" then -1 else (parsedNumber text).getD (-1)

def saysChunked (headers : HeaderMap) : Bool :=
  Text.containsText (Text.toLower (headers.value "Transfer-Encoding")) "chunked"

def makeRequest (hreq : LibraryRequest) (uuid : String) : Request :=
  let cid := hreq.headers.value "x-correlation-id"
  { method := parseMethod hreq.method
    methodRaw := hreq.method
    path := hreq.path
    query := String.ofList ((hreq.target.toList.dropWhile (· ≠ '?')).drop 1)
    headers := hreq.headers
    isChunked := saysChunked hreq.headers
    contentLength := hreq.contentLength
    isHead := parseMethod hreq.method = .head
    correlationId := if cid = "" then uuid else cid }

def ServerOptions.error (srv : ServerOptions) (status : Int) (detail : String) : Response :=
  errorResponse srv.errorFormat status detail

/-- At most the first 256 octets of a path are sent back. -/
def shownPath (path : String) : String :=
  if 256 < path.length then String.ofList (path.toList.take 256) ++ "…" else path

/-- The checks before the body: message framing, route, declared length. -/
def checkHead (srv : ServerOptions) (routes : List Route) (hasReader : Bool) (req : Request) :
    Except Response (Route × List (String × String)) :=
  if 1 < req.headers.count "Content-Length" then
    .error (srv.error 400 "duplicate Content-Length headers")
  else if req.isChunked = true ∧ req.headers.count "Content-Length" = 1 then
    .error (srv.error 400 "Content-Length and Transfer-Encoding: chunked together")
  else
    match matchRoute req.method req.path routes with
    | none => .error (srv.error 404 ("no route for " ++ req.methodRaw ++ " " ++ shownPath req.path))
    | some (route, params) =>
      if hasReader = true ∧ 0 ≤ req.contentLength ∧ 0 < route.options.maxBodyBytes ∧
          route.options.maxBodyBytes < req.contentLength then
        .error (srv.error 413 ("content-length " ++ toString req.contentLength ++
          " exceeds limit " ++ toString route.options.maxBodyBytes))
      else .ok (route, params)

/-! ## The body -/

def receiverFor (srv : ServerOptions) (route : Route) (now : Int) : CountingReceiver :=
  { buffer := if route.options.streamBody = true then none else some []
    limit := route.options.maxBodyBytes
    overallTimeoutMs :=
      if route.options.streamBody = true then 0 else srv.jsonRequestTimeoutSec * 1000
    idleTimeoutMs :=
      if route.options.streamBody = true then srv.transferIdleTimeoutSec * 1000
      else srv.readTimeoutSec * 1000
    started := now
    lastProgress := now }

def pumpCapacity (srv : ServerOptions) : Nat := (max 4096 srv.transferBufferBytes).toNat

/-- `HandleBodyError`: the response to a body that could not be read as declared. -/
def handleBodyError (srv : ServerOptions) (req : Request) (route : Route)
    (counting : CountingReceiver) (readerOk : Bool) (now : Int) : Option Response :=
  if counting.timedOut = true then
    some (srv.error 408 ("request body timed out (no progress within " ++
      toString (if route.options.streamBody = true then srv.transferIdleTimeoutSec
        else srv.jsonRequestTimeoutSec) ++ "s)"))
  else if counting.exceeded = true then
    some (srv.error (if 0 ≤ req.contentLength then 413 else 400)
      ("request body exceeds limit " ++ toString route.options.maxBodyBytes ++ " bytes"))
  else if readerOk = false ∧ 0 < counting.idleTimeoutMs ∧
      counting.idleTimeoutMs ≤ now - counting.lastProgress then
    some (srv.error 408 ("request body timed out (no progress for " ++
      toString (counting.idleTimeoutMs.tdiv 1000) ++ "s)"))
  else if 0 ≤ req.contentLength ∧ counting.read ≠ req.contentLength then
    some (srv.error 400 ("content-length mismatch: declared " ++ toString req.contentLength ++
      ", read " ++ toString counting.read))
  else if readerOk = false then some (srv.error 400 "failed to read request body")
  else none

/-! ## The handler and the response -/

def ServerOptions.called (srv : ServerOptions) : Outcome → Response
  | .returns res => res
  | .throws (some what) => srv.error 500 ("handler threw: " ++ what)
  | .throws none => srv.error 500 "handler threw unknown exception"

/-- `NormalizeRange`, with what it makes of the library's request. -/
def normalizeRange (srv : ServerOptions) (hreq : LibraryRequest) (res : Response) :
    Response × LibraryRequest :=
  let ignored : LibraryRequest := { hreq with ranges := [], headers := hreq.headers.remove "Range" }
  let header := hreq.headers.value "Range"
  match res.stream with
  | none => (res, hreq)
  | some source =>
    if header = "" ∨ res.streamLength < 0 then (res, hreq)
    else
      match parseRangeHeader header res.streamLength with
      | .absent => (res, hreq)
      | .single r => (res, { hreq with ranges := [(r.first, r.last)] })
      | .multiple rs =>
        if source.seekable = false then (res, ignored)
        else (res, { hreq with ranges := rs.map fun r => (r.first, r.last) })
      | .malformed _ => (res, ignored)
      | .unsatisfiable detail =>
        let unmet := srv.error 416 detail
        let contentRange := formatUnsatisfiedContentRange res.streamLength
        ({ unmet with headers := unmet.headers.set "Content-Range" contentRange },
          { hreq with ranges := [] })

theorem normalizeRange_cases (srv : ServerOptions) (hreq : LibraryRequest) (res : Response) :
    (normalizeRange srv hreq res).1 = res ∨ (normalizeRange srv hreq res).1.status = 416 := by
  cases hstream : res.stream with
  | none => simp [normalizeRange, hstream]
  | some source =>
    simp only [normalizeRange, hstream]
    by_cases hwhole : hreq.headers.value "Range" = "" ∨ res.streamLength < 0
    · simp [hwhole]
    · rw [if_neg hwhole]
      cases parseRangeHeader (hreq.headers.value "Range") res.streamLength with
      | multiple rs => by_cases hseek : source.seekable = false <;> simp [hseek]
      | unsatisfiable detail => exact .inr rfl
      | absent => exact .inl rfl
      | single r => exact .inl rfl
      | malformed detail => exact .inl rfl

/-- The range, and the correlation id on the way out. -/
def conclude (srv : ServerOptions) (hreq : LibraryRequest) (req : Request) (res : Response) :
    Response × LibraryRequest :=
  let ranged := normalizeRange srv hreq res
  if req.correlationId = "" then ranged
  else ({ ranged.1 with headers := ranged.1.headers.set "x-correlation-id" req.correlationId },
    ranged.2)

theorem conclude_status (srv : ServerOptions) (hreq : LibraryRequest) (req : Request)
    (res : Response) :
    (conclude srv hreq req res).1.status = (normalizeRange srv hreq res).1.status := by
  unfold conclude
  split <;> rfl

/-! ## One dispatch -/

/-- What a request brings with it: its head, the events of its body, and what its handler does. -/
structure Exchange where
  hreq : LibraryRequest
  uuid : String
  hasReader : Bool
  startedAt : Int
  /-- The callbacks of the library for a buffered body, each with its time. -/
  arrivals : List (Bytes × Int)
  readerOk : Bool
  /-- How the two threads ended for a streamed body. -/
  streaming : Streaming
  handler : Request → Outcome
  checkedAt : Int

inductive MemberOp where
  | setLastBodyError (res : Response)
  | lastBodyError

/-- The member of the server that all dispatches share. -/
abbrev members : Interface where
  Op := MemberOp
  Reply
    | .setLastBodyError _ => Unit
    | .lastBodyError => Response

def receiveAll (counting : CountingReceiver) (arrivals : List (Bytes × Int)) : CountingReceiver :=
  arrivals.foldl (fun c a => (c.receive a.1 a.2).1) counting

/-- The failure of the body is certain, so it is what the client has to know. -/
def conclusive (req : Request) (counting : CountingReceiver) : Bool :=
  counting.timedOut || counting.exceeded ||
    (decide (0 ≤ req.contentLength) && counting.read != req.contentLength)

def notConsumed (srv : ServerOptions) (s : Streaming) : Response :=
  srv.error 500 ("streaming handler returned success without consuming the request body (consumed "
    ++ toString s.pump.consumed ++ " of " ++ toString s.counting.read ++ " bytes read)")

/-- The end of a streamed request: what the handler says, unless the body says otherwise. -/
def endStreamed (srv : ServerOptions) (x : Exchange) (req : Request) (route : Route) :
    Program members (Response × LibraryRequest) :=
  let s := x.streaming
  let res := srv.called (s.handled.getD (.throws none))
  match handleBodyError srv req route s.counting s.readerOk x.checkedAt with
  | some bodyError => do
    Program.perform (I := members) (.setLastBodyError bodyError)
    if res.succeeded || conclusive req s.counting then
      let last ← Program.perform (I := members) .lastBodyError
      return conclude srv x.hreq req last
    else return conclude srv x.hreq req res
  | none =>
    if res.succeeded && (s.pump.consumed : Int) != s.counting.read then
      return conclude srv x.hreq req (notConsumed srv s)
    else return conclude srv x.hreq req res

def endBuffered (srv : ServerOptions) (x : Exchange) (req : Request) (route : Route) :
    Program members (Response × LibraryRequest) :=
  let counting := receiveAll (receiverFor srv route x.startedAt) x.arrivals
  match handleBodyError srv req route counting x.readerOk x.checkedAt with
  | some bodyError => do
    Program.perform (I := members) (.setLastBodyError bodyError)
    let last ← Program.perform (I := members) .lastBodyError
    return (last, x.hreq)
  | none =>
    return conclude srv x.hreq req
      (srv.called (x.handler { req with body := counting.buffer.getD [] }))

/-- What follows once a route has been found. -/
def serve (srv : ServerOptions) (x : Exchange) (req : Request) (route : Route) :
    Program members (Response × LibraryRequest) :=
  if x.hasReader = false then return conclude srv x.hreq req (srv.called (x.handler req))
  else if route.options.streamBody = true then endStreamed srv x req route
  else endBuffered srv x req route

def Exchange.request (x : Exchange) : Request := makeRequest x.hreq x.uuid

/-- `Dispatch`, with the request as the library finds it afterwards. -/
def dispatch (srv : ServerOptions) (routes : List Route) (x : Exchange) :
    Program members (Response × LibraryRequest) :=
  match checkHead srv routes x.hasReader x.request with
  | .error res => return (res, x.hreq)
  | .ok (route, params) => serve srv x { x.request with routeParams := params } route

section Admission
variable {srv : ServerOptions} {routes : List Route} {x : Exchange} {res : Response}
variable {req : Request} {route : Route} {params : List (String × String)} {hasReader : Bool}

theorem dispatch_refused (h : checkHead srv routes x.hasReader x.request = .error res) :
    dispatch srv routes x = .ret (res, x.hreq) := by
  rw [dispatch, h]
  rfl

theorem dispatch_admitted (h : checkHead srv routes x.hasReader x.request = .ok (route, params)) :
    dispatch srv routes x = serve srv x { x.request with routeParams := params } route := by
  rw [dispatch, h]

theorem matchRoute_of_admitted (h : checkHead srv routes hasReader req = .ok (route, params)) :
    matchRoute req.method req.path routes = some (route, params) := by
  unfold checkHead at h
  repeat' split at h
  all_goals cases h
  assumption

end Admission

end FileService.Http
