import FileService.S3.SigV4
import FileService.Transfer.Issued

/-!
# One HTTP call

The library that performs a call invokes callbacks: it asks for octets to upload,
hands over the header lines of the answers, and hands over the body of the last
answer. An exchange is what it invoked them with, next to what the source and the
sink replied. Each callback tells how many octets it took; a different number
than it was given ends the call.
-/
namespace FileService.S3
open FileService.Common FileService.Common.Crypto FileService.Domain
open FileService.Transfer (isSpaceOctet isDigitOctet decimalNat decimal signOf)

/-! ## Texts -/

/-- A text as it stands in a message or in a record. -/
def text (data : Bytes) : String :=
  (textOf data).getD (String.ofList (data.map fun c => Char.ofNat c.toNat))

def errorKindName : ErrorKind → String
  | .ok => "kOk"
  | .invalidArgument => "kInvalidArgument"
  | .fileSourceEmpty => "kFileSourceEmpty"
  | .invalidSourcePath => "kInvalidSourcePath"
  | .locationAlreadyExists => "kLocationAlreadyExists"
  | .checksumMismatch => "kChecksumMismatch"
  | .unauthenticated => "kUnauthenticated"
  | .permissionDenied => "kPermissionDenied"
  | .storageAccessDenied => "kStorageAccessDenied"
  | .notFound => "kNotFound"
  | .unimplemented => "kUnimplemented"
  | .internal => "kInternal"
  | .badGateway => "kBadGateway"
  | .unavailable => "kUnavailable"

/-- `Error::ToString` -/
def errorText (e : Error) : String :=
  errorKindName e.kind ++ ": " ++ e.message ++
    if e.details = [] then ""
    else " [" ++ ", ".intercalate (e.details.map fun d => d.1 ++ "=" ++ d.2) ++ "]"

def digitValue (base : Nat) (c : UInt8) : Option Nat :=
  (Percent.hexDigit? c).filter (· < base)

def saturated (n : Int) : Int := max (-2 ^ 63) (min (2 ^ 63 - 1) n)

/-- The digits a text starts with, as a number. -/
def digitsFrom (base : Nat) (value : Nat) : Bytes → Nat
  | [] => value
  | c :: rest =>
    match digitValue base c with
    | some d => digitsFrom base (base * value + d) rest
    | none => value

/-- `strtol` -/
def strtol (base : Nat) (text : Bytes) : Int :=
  let (negative, digits) := signOf (text.dropWhile isSpaceOctet)
  let digits := if base = 16 ∧ (octets "0x").isPrefixOf (lower digits) then digits.drop 2 else digits
  saturated (if negative then -(digitsFrom base 0 digits : Int) else digitsFrom base 0 digits)

/-- `atol`, and `atoll` -/
def atol (text : Bytes) : Int := strtol 10 text

/-! ## Answers -/

/-- The head of an answer. Its version has no blank and its field names have no slash. -/
structure Head where
  version : Bytes := octets "1.1"
  status : Nat
  reason : Bytes := []
  fields : List (Bytes × Bytes) := []
  status_fits : status < 1000 := by decide
  version_plain : 32 ∉ version := by decide
  names_plain : ∀ field ∈ fields, 47 ∉ field.1 := by decide

def crlf : Bytes := [13, 10]

def Head.statusLine (head : Head) : Bytes :=
  octets "HTTP/" ++ (head.version ++ 32 :: (decimalNat head.status ++ 32 :: (head.reason ++ crlf)))

def fieldLine (field : Bytes × Bytes) : Bytes := field.1 ++ 58 :: 32 :: (field.2 ++ crlf)

def Head.lines (head : Head) : List Bytes :=
  head.statusLine :: (head.fields.map fieldLine ++ [crlf])

/-! ## Callbacks -/

inductive Callback where
  | read (reply : Result Bytes)
  | header (line : Bytes)
  | write (data : Bytes) (reply : Result Unit)

/-- What the service sent. -/
inductive Part where
  | line (octets : Bytes)
  | data (octets : Bytes)
deriving DecidableEq

def Callback.part? : Callback → Option Part
  | .read _ => none
  | .header line => some (.line line)
  | .write data _ => some (.data data)

def Head.parts (head : Head) : List Part := head.lines.map .line

/-- The callbacks of one call: they deliver the heads of the informational answers, then the
last answer, up to where the call fails. -/
structure Exchange where
  informational : List Head := []
  final : Head
  body : List Bytes := []
  callbacks : List Callback
  /-- What is said of a code other than `CURLE_OK`. -/
  failure : Option String := none
  responseCode : Int := 0
  final_status : 200 ≤ final.status := by decide
  delivered : callbacks.filterMap Callback.part? <+:
    (informational ++ [final]).flatMap Head.parts ++ body.map .data := by decide +kernel
  complete : failure = none → callbacks.filterMap Callback.part? =
    (informational ++ [final]).flatMap Head.parts ++ body.map .data := by decide +kernel

def Exchange.document (x : Exchange) : Bytes := x.body.flatten

/-! ## The call -/

structure HttpCall where
  method : Bytes
  url : Bytes
  headers : List Bytes := []
  headOnly : Bool := false
  /-- Whether there is an `UploadState`. -/
  uploads : Bool := false
  uploadSize : Int := -1
  download : Bool := false
  noTotalTimeout : Bool := false
  errorBody : Bool := false
  responseHeaders : Bool := false
  captureLimit : Nat := 64 * 1024

structure DownloadState where
  status : Int := 0
  sink : Bytes := []
  errorBody : Bytes := []
  headers : List (Bytes × Bytes) := []
  sinkFailed : Option String := none

/-- What the source gave, and the error it failed with. -/
structure UploadState where
  sent : Bytes := []
  failed : Option String := none

/-- `ReadCallback`; whether the transfer goes on. -/
def readCallback (state : UploadState) (reply : Result Bytes) : UploadState × Bool :=
  if state.failed.isSome then (state, true)
  else
    match reply with
    | .error e => ({ state with failed := some (errorText e) }, false)
    | .ok data => ({ state with sent := state.sent ++ data }, true)

section Callbacks
variable (call : HttpCall) (state : DownloadState)

def mayCapture : Bool := call.errorBody && decide (state.errorBody.length < call.captureLimit)

/-- `WriteCallback`, with the number of octets it took. -/
def writeCallback (data : Bytes) (reply : Result Unit) : DownloadState × Nat :=
  if 400 ≤ state.status then
    (if mayCapture call state then { state with errorBody := state.errorBody ++ data } else state,
      data.length)
  else if !call.download then
    if mayCapture call state then
      ({ state with errorBody := state.errorBody ++ data }, data.length)
    else if call.errorBody then
      ({ state with sinkFailed := some ("响应体超过采集上限 " ++ toString call.captureLimit ++
        " 字节") }, 0)
    else (state, data.length)
  else
    match reply with
    | .error e => ({ state with sinkFailed := some (errorText e) }, 0)
    | .ok _ => ({ state with sink := state.sink ++ data }, data.length)

/-- `headers[name] = value` -/
def setHeader (headers : List (Bytes × Bytes)) (name value : Bytes) : List (Bytes × Bytes) :=
  (name, value) :: headers.filter fun h => h.1 != name

/-- `HeaderCallback` -/
def headerCallback (line : Bytes) : DownloadState :=
  if (octets "HTTP/").isPrefixOf line then
    match line.dropWhile (· != 32) with
    | [] => state
    | _ :: rest => { state with status := atol rest }
  else if call.responseHeaders then
    match line.dropWhile (· != 58) with
    | [] => state
    | _ :: rest =>
      let value := (rest.dropWhile (· == 32)).rdropWhile fun c => c == 13 || c == 10
      { state with headers := setHeader state.headers (lower (line.takeWhile (· != 58))) value }
  else state

end Callbacks

structure Transfer where
  download : DownloadState := {}
  upload : UploadState := {}

/-- One callback; whether the call goes on. Without an `UploadState` the length to upload is
zero and nothing is read. -/
def Transfer.next (call : HttpCall) (state : Transfer) : Callback → Transfer × Bool
  | .read reply =>
    if call.uploads then
      let (upload, goesOn) := readCallback state.upload reply
      ({ state with upload }, goesOn)
    else (state, true)
  | .header line => ({ state with download := headerCallback call state.download line }, true)
  | .write data reply =>
    let (download, taken) := writeCallback call state.download data reply
    ({ state with download }, taken == data.length)

/-- The callbacks in their order, up to the one that ends the call. -/
def Transfer.through (call : HttpCall) (state : Transfer) : List Callback → Transfer × Bool
  | [] => (state, true)
  | callback :: rest =>
    let (after, goesOn) := state.next call callback
    if goesOn then after.through call rest else (after, false)

/-- The error of a call that did not go through. -/
def Transfer.error (state : Transfer) (failure : Option String) : Error :=
  match state.upload.failed, state.download.sinkFailed with
  | some message, _ => err .unavailable ("读取上传源失败：" ++ message)
  | none, some message => err .unavailable ("写入下载目标失败：" ++ message)
  | none, none => err .unavailable ("curl 传输失败：" ++ failure.getD "")

/-- What the callbacks leave behind. -/
def HttpCall.transfer (call : HttpCall) (x : Exchange) : Transfer :=
  (Transfer.through call {} x.callbacks).1

/-- No callback ended the call and the library reports no failure. -/
def HttpCall.Arrives (call : HttpCall) (x : Exchange) : Prop :=
  (Transfer.through call {} x.callbacks).2 = true ∧ x.failure = none

instance (call : HttpCall) (x : Exchange) : Decidable (call.Arrives x) :=
  inferInstanceAs (Decidable (_ ∧ _))

/-- `CurlPerform` from where the call was performed. -/
def HttpCall.outcome (call : HttpCall) (x : Exchange) : Result Int :=
  let state := call.transfer x
  if call.Arrives x then
    .ok (if state.download.status = 0 then x.responseCode else state.download.status)
  else .error (state.error x.failure)

end FileService.S3
