import FileService.Interaction.Trace
import FileService.S3.Exchange

/-!
# The blob store over HTTP

Every operation signs one request and performs it; `copy` then looks at the
object it made, and `ensure_container` creates what it did not find. The URL has
the path and the query as they are, the signer encodes them.
-/
namespace FileService.S3
open FileService.Common FileService.Common.Crypto FileService.Domain FileService.App
open FileService.Transfer (decimal)

/-! ## Documents -/

/-- `find`: what stands before a pattern and what stands after it. -/
def findText (pattern : Bytes) : Bytes → Option (Bytes × Bytes)
  | [] => if pattern = [] then some ([], []) else none
  | c :: rest =>
    if pattern.isPrefixOf (c :: rest) then some ([], (c :: rest).drop pattern.length)
    else (findText pattern rest).map fun (before, after) => (c :: before, after)

/-- The octets that an entity stands for; an unknown one stays. -/
def xmlEntity (entity : Bytes) : Bytes :=
  if entity = octets "amp" then octets "&"
  else if entity = octets "lt" then octets "<"
  else if entity = octets "gt" then octets ">"
  else if entity = octets "quot" then octets "\""
  else if entity = octets "apos" then octets "'"
  else if entity.head? = some 35 then
    let hexadecimal := entity[1]? = some 120 ∨ entity[1]? = some 88
    let code := if hexadecimal then strtol 16 (entity.drop 2) else strtol 10 (entity.drop 1)
    if 0 < code ∧ code < 256 then [UInt8.ofNat code.toNat] else []
  else 38 :: (entity ++ [59])

/-- `XmlUnescape`, on at most so many octets. -/
def xmlUnescapeFrom : Nat → Bytes → Bytes
  | fuel + 1, c :: rest =>
    if c ≠ 38 then c :: xmlUnescapeFrom fuel rest
    else
      match findText [59] rest with
      | none => c :: xmlUnescapeFrom fuel rest
      | some (entity, after) => xmlEntity entity ++ xmlUnescapeFrom fuel after
  | _, _ => []

def xmlUnescape (text : Bytes) : Bytes := xmlUnescapeFrom text.length text

def openTag (tag : String) : Bytes := octets ("<" ++ tag ++ ">")
def closeTag (tag : String) : Bytes := octets ("</" ++ tag ++ ">")

/-- The first element with a tag, and what follows it. -/
def findBlock (xml : Bytes) (tag : String) : Option (Bytes × Bytes) := do
  let (_, inside) ← findText (openTag tag) xml
  findText (closeTag tag) inside

/-- `FindTag` -/
def findTag (xml : Bytes) (tag : String) : Option Bytes :=
  (findBlock xml tag).map fun (block, _) => xmlUnescape block

/-- `FindAllBlocks`, at most so many. -/
def findBlocksFrom (tag : String) : Nat → Bytes → List Bytes
  | 0, _ => []
  | fuel + 1, xml =>
    match findBlock xml tag with
    | none => []
    | some (block, after) => block :: findBlocksFrom tag fuel after

def findAllBlocks (xml : Bytes) (tag : String) : List Bytes := findBlocksFrom tag xml.length xml

def trimQuotes (text : Bytes) : Bytes :=
  (text.dropWhile fun c => c == 34 || c == 32).rdropWhile fun c => c == 34 || c == 32 || c == 13

/-- `MapS3Error` -/
def mapS3Error (status : Int) (body : Bytes) (what : String) : Error :=
  let code := text ((findTag body "Code").getD [])
  let message := text ((findTag body "Message").getD (body.take 200))
  let context := what ++ " 失败（HTTP " ++ toString status ++
    (if code = "" then "" else " " ++ code) ++ "）：" ++ message
  if code = "NoSuchKey" ∨ code = "NoSuchBucket" ∨ status = 404 then err .notFound context
  else if code = "AccessDenied" ∨ code = "SignatureDoesNotMatch" ∨ code = "InvalidAccessKeyId" ∨
      status = 403 then err .storageAccessDenied context
  else if code = "SlowDown" ∨ code = "ServiceUnavailable" ∨ status = 503 then
    err .unavailable context
  else if code = "BadDigest" ∨ code = "InvalidDigest" ∨ code = "XAmzContentSHA256Mismatch" then
    err .checksumMismatch context
  else if code = "InvalidRange" ∨ status = 416 then err .invalidArgument context
  else if 500 ≤ status then err .badGateway context
  else err .internal context

/-! ## Digests -/

/-- `Base64Encode`: the other alphabet, padded. -/
def base64Encode (data : Bytes) : Bytes :=
  let letters := (base64UrlEncode data).map fun c => if c = 45 then 43 else if c = 95 then 47 else c
  letters ++ List.replicate ((3 - data.length % 3) % 3) 61

def hexToBytes : Bytes → Option Bytes
  | [] => some []
  | [_] => none
  | high :: low :: rest => do
    let octet ← Percent.escaped? high low
    let others ← hexToBytes rest
    some (octet :: others)

/-! ## Calls -/

/-- What an operation asks for: the time, a call on the network, or the end of its sink. -/
inductive S3Call where
  | nowEpochSeconds
  | perform (call : HttpCall)
  | closeSink

abbrev S3Call.Reply : S3Call → Type
  | .nowEpochSeconds => Int
  | .perform _ => Exchange
  | .closeSink => Result Unit

abbrev calling : Interaction.Interface where
  Op := S3Call
  Reply := S3Call.Reply

abbrev Operation (α : Type) := Interaction.Action calling Error α

def ask (call : S3Call) : Operation call.Reply := Interaction.Action.call (I := calling) call

/-- `FSS_TRY` on a result. -/
def tryResult {α : Type} : Result α → Operation α
  | .ok a => pure a
  | .error e => throw e

/-- `CurlPerform`, with what the callbacks left behind. -/
def curlPerform (call : HttpCall) : Operation (Int × Transfer) := do
  let x ← ask (.perform call)
  let status ← tryResult (call.outcome x)
  pure (status, call.transfer x)

/-! ## Requests -/

structure S3Options where
  endpoint : Bytes
  region : Bytes := octets "us-east-1"
  forcePathStyle : Bool := true
  verifyTls : Bool := true
  scheme : Bytes := []
  credentials : AwsCredentials

def S3Options.effectiveScheme (options : S3Options) : Bytes :=
  if options.scheme ≠ [] then options.scheme
  else if options.verifyTls then octets "https" else octets "http"

/-- `MakeSignOptions` -/
def makeSignOptions (options : S3Options) : SigV4Options where
  region := options.region
  service := octets "s3"
  forcePathStyle := options.forcePathStyle
  endpoint := options.endpoint
  scheme := options.effectiveScheme

/-- The time of a request, without separators and to the second. -/
def amzDate (epochSeconds : Int) : Bytes :=
  ((octets (toIso8601Utc epochSeconds 0)).take 19).filter (fun c => c != 45 && c != 58) ++ [90]

/-- The store, with the hash functions and the reader of dates that it calls. -/
structure S3BlobStore where
  options : S3Options
  hashes : Hashes
  parseObjectTimestamp : Bytes → Int

/-- `Authorization` and the headers that were signed; the library sends `host` itself. -/
def signAndCollect (signer : SigV4Signer) (hashes : Hashes) (request : SigV4Request)
    (amzDate : Bytes) (outHeaders : List Bytes) : Result (List Bytes) := do
  let signed ← signer.signRequest hashes request amzDate
  let others := request.headers.filter fun h => h.1 != octets "host"
  .ok (outHeaders ++ (octets "Authorization: " ++ signed.authorization) ::
    others.map fun h => h.1 ++ octets ": " ++ h.2)

namespace S3BlobStore
variable (store : S3BlobStore)

def signer : SigV4Signer := ⟨store.options.credentials, makeSignOptions store.options⟩

def objectPath (ref : ObjectRef) : Bytes :=
  if store.options.forcePathStyle then 47 :: (octets ref.container ++ 47 :: octets ref.key)
  else 47 :: octets ref.key

def bucketPath (container : Bytes) : Bytes :=
  if store.options.forcePathStyle then 47 :: container else [47]

/-- A request with the headers that all have. -/
def requestFor (method : String) (container : Bytes) (path date payload : Bytes) : SigV4Request :=
  let host := store.signer.hostFor container
  { method := octets method
    host
    path
    headers := [(octets "host", host), (octets "x-amz-date", date),
      (octets "x-amz-content-sha256", payload)]
    payloadSha256Hex := payload }

def emptySha256Hex : Bytes := store.hashes.sha256Hex []

def urlOf (request : SigV4Request) : Bytes :=
  store.options.effectiveScheme ++ octets "://" ++ request.host ++ request.path

def sign (request : SigV4Request) (date : Bytes) (outHeaders : List Bytes) :
    Operation (List Bytes) :=
  tryResult (signAndCollect store.signer store.hashes request date outHeaders)

def checkRef (message : String) (ref : ObjectRef) : Result Unit :=
  if ref.container = "" ∨ ref.key = "" then .error (err .invalidArgument message) else .ok ()

/-! ## Operations -/

/-- `ensure_container` -/
def ensureContainer (container : String) : Operation Unit := do
  if container = "" then throw (err .invalidArgument "S3：容器名不能为空")
  let date := amzDate (← ask .nowEpochSeconds)
  let head := store.requestFor "HEAD" (octets container) (store.bucketPath (octets container)) date
    store.emptySha256Hex
  let headers ← store.sign head date []
  let (status, _) ← curlPerform
    { method := octets "HEAD", url := store.urlOf head, headers, headOnly := true }
  if 200 ≤ status ∧ status < 300 then return ()
  if status ≠ 404 then throw (mapS3Error status [] "ensure_container(HEAD)")
  let date := amzDate (← ask .nowEpochSeconds)
  let request := store.requestFor "PUT" (octets container) (store.bucketPath (octets container)) date
    store.emptySha256Hex
  let headers ← store.sign request date []
  let (status, transfer) ← curlPerform
    { method := octets "PUT", url := store.urlOf request, headers, uploadSize := 0, errorBody := true }
  if 400 ≤ status then
    throw (mapS3Error status transfer.download.errorBody "ensure_container(PUT)")

/-- The checks of `put` before anything is sent; the source may know its size. -/
def checkPut (ref : ObjectRef) (sourceSize : Option Int) (options : PutOptions) : Result Unit :=
  if ref.container = "" ∨ ref.key = "" then
    .error (err .invalidArgument "S3：container 与 key 都不能为空")
  else if options.expectedChecksum ≠ "" ∧ options.checksumAlgorithm = "" then
    .error (err .invalidArgument
      "S3：给了 expected_checksum 就必须给 checksum_algorithm（否则无法校验）")
  else
    match sourceSize with
    | some size =>
      if 0 ≤ options.expectedSize ∧ size ≠ options.expectedSize then
        .error (err .invalidArgument ("S3：expected_size=" ++ toString options.expectedSize ++
          " 与实际长度 " ++ toString size ++ " 不符"))
      else .ok ()
    | none =>
      if 0 ≤ options.expectedSize then
        .error (err .invalidArgument "S3：expected_size 已声明但源长度未知，无法保证不静默截断")
      else .ok ()

/-- The header with the digest, for the service to check as well. -/
def checksumHeader (options : PutOptions) : Result (List (Bytes × Bytes)) :=
  if options.expectedChecksum = "" then .ok []
  else
    match hexToBytes (octets options.expectedChecksum) with
    | some digest =>
      if options.checksumAlgorithm = "SHA256" then
        .ok [(octets "x-amz-checksum-sha256", base64Encode digest)]
      else .error (err .invalidArgument "S3：只支持 SHA256 的 expected_checksum（十六进制）")
    | none => .error (err .invalidArgument "S3：只支持 SHA256 的 expected_checksum（十六进制）")

/-- How a put ends that was answered. -/
def putResult (options : PutOptions) (status : Int) (transfer : Transfer) : Result Unit :=
  let actual := store.hashes.sha256Hex transfer.upload.sent
  if 400 ≤ status then
    let error := mapS3Error status transfer.download.errorBody "put"
    if error.kind = .checksumMismatch ∧ options.expectedChecksum ≠ "" then
      .error ((error.withDetail "expected" options.expectedChecksum).withDetail "actual"
        (text actual))
    else .error error
  else if options.expectedChecksum ≠ "" ∧ actual ≠ octets options.expectedChecksum then
    .error (((err .checksumMismatch "put：校验和不符").withDetail "expected"
      options.expectedChecksum).withDetail "actual" (text actual))
  else .ok ()

def putCall (request : SigV4Request) (headers : List Bytes) (sourceSize : Option Int) : HttpCall where
  method := octets "PUT"
  url := store.urlOf request
  headers
  uploads := true
  uploadSize := sourceSize.getD (-1)
  noTotalTimeout := true
  errorBody := true

def put (ref : ObjectRef) (sourceSize : Option Int) (options : PutOptions) : Operation Unit := do
  tryResult (checkPut ref sourceSize options)
  let date := amzDate (← ask .nowEpochSeconds)
  let plain := store.requestFor "PUT" (octets ref.container) (store.objectPath ref) date
    (octets "UNSIGNED-PAYLOAD")
  let typed := if options.contentType = "" then []
    else [(octets "content-type", octets options.contentType)]
  let checked ← tryResult (checksumHeader options)
  let request := { plain with headers := plain.headers ++ typed ++ checked }
  let headers ← store.sign request date []
  let (status, transfer) ← curlPerform (store.putCall request headers sourceSize)
  tryResult (store.putResult options status transfer)

/-- The `Range` header, which is not signed. -/
def rangeHeader (range : ByteRange) : List Bytes :=
  if range.isWholeObject then []
  else
    let last := if range.length = 0 then [] else decimal ((range.offset : Int) + range.length - 1)
    [octets "Range: bytes=" ++ decimal range.offset ++ 45 :: last]

def getCall (request : SigV4Request) (headers : List Bytes) : HttpCall where
  method := octets "GET"
  url := store.urlOf request
  headers
  download := true
  noTotalTimeout := true
  errorBody := true

def get (ref : ObjectRef) (range : ByteRange) : Operation Unit := do
  tryResult (checkRef "S3：container 与 key 都不能为空" ref)
  let date := amzDate (← ask .nowEpochSeconds)
  let request := store.requestFor "GET" (octets ref.container) (store.objectPath ref) date
    store.emptySha256Hex
  let headers ← store.sign request date (rangeHeader range)
  let (status, transfer) ← curlPerform (store.getCall request headers)
  if 400 ≤ status then throw (mapS3Error status transfer.download.errorBody "get")
  tryResult (← ask .closeSink)

/-- How a stat ends that was answered. -/
def statResult (status : Int) (headers : List (Bytes × Bytes)) : Result ObjectStat :=
  if status = 404 then .ok { «exists» := false }
  else if 400 ≤ status then .error (mapS3Error status [] "stat")
  else
    let value := fun (name : String) => headers.lookup (octets name)
    .ok
      { «exists» := true
        size := ((value "content-length").map atol).getD 0
        contentType := ((value "content-type").map text).getD ""
        checksum := ((value "etag").map fun tag => text (trimQuotes tag)).getD ""
        checksumAlgorithm := if (value "etag").isSome then "ETAG" else ""
        lastModifiedEpochSeconds := ((value "last-modified").map store.parseObjectTimestamp).getD 0 }

def statCall (request : SigV4Request) (headers : List Bytes) : HttpCall where
  method := octets "HEAD"
  url := store.urlOf request
  headers
  headOnly := true
  responseHeaders := true

def stat (ref : ObjectRef) : Operation ObjectStat := do
  tryResult (checkRef "S3：container 与 key 都不能为空" ref)
  let date := amzDate (← ask .nowEpochSeconds)
  let request := store.requestFor "HEAD" (octets ref.container) (store.objectPath ref) date
    store.emptySha256Hex
  let headers ← store.sign request date []
  let (status, transfer) ← curlPerform (store.statCall request headers)
  tryResult (store.statResult status transfer.download.headers)

def removeResult (status : Int) (body : Bytes) : Result Unit :=
  if status = 404 then .ok ()
  else if 400 ≤ status then .error (mapS3Error status body "remove")
  else .ok ()

def removeCall (request : SigV4Request) (headers : List Bytes) : HttpCall where
  method := octets "DELETE"
  url := store.urlOf request
  headers
  errorBody := true

def remove (ref : ObjectRef) : Operation Unit := do
  tryResult (checkRef "S3：container 与 key 都不能为空" ref)
  let date := amzDate (← ask .nowEpochSeconds)
  let request := store.requestFor "DELETE" (octets ref.container) (store.objectPath ref) date
    store.emptySha256Hex
  let headers ← store.sign request date []
  let (status, transfer) ← curlPerform (store.removeCall request headers)
  tryResult (removeResult status transfer.download.errorBody)

def copyCall (request : SigV4Request) (headers : List Bytes) : HttpCall where
  method := octets "PUT"
  url := store.urlOf request
  headers
  uploadSize := 0
  errorBody := true

/-- The stat of a copy; where it has no checksum, the answer to the copy may have one. -/
def copied (body : Bytes) (stat : ObjectStat) : ObjectStat :=
  if stat.checksumAlgorithm ≠ "" then stat
  else
    match findTag body "ETag" with
    | some tag => { stat with checksum := text (trimQuotes tag), checksumAlgorithm := "ETAG" }
    | none => stat

def copySource (source : ObjectRef) : Bytes :=
  47 :: (octets source.container ++ 47 :: octets source.key)

def copy (source target : ObjectRef) : Operation ObjectStat := do
  tryResult (checkRef "S3：copy 的 container 与 key 都不能为空" source)
  tryResult (checkRef "S3：copy 的 container 与 key 都不能为空" target)
  let date := amzDate (← ask .nowEpochSeconds)
  let plain := store.requestFor "PUT" (octets target.container) (store.objectPath target) date
    store.emptySha256Hex
  let request :=
    { plain with headers := plain.headers ++ [(octets "x-amz-copy-source", copySource source)] }
  let headers ← store.sign request date []
  let (status, transfer) ← curlPerform (store.copyCall request headers)
  if 400 ≤ status then throw (mapS3Error status transfer.download.errorBody "copy")
  let stat ← store.stat target
  pure (copied transfer.download.errorBody stat)

/-- The query as it is put into the URL. -/
def queryText (query : List (Bytes × Bytes)) : Bytes :=
  joined 38 (query.map fun p => p.1 ++ 61 :: p.2)

def listQuery (pre continuationToken : String) (limit : Int) : List (Bytes × Bytes) :=
  let limit := if limit ≤ 0 then 1000 else limit
  [(octets "list-type", octets "2"), (octets "max-keys", decimal limit)] ++
    (if pre = "" then [] else [(octets "prefix", octets pre)]) ++
    (if continuationToken = "" then []
      else [(octets "continuation-token", octets continuationToken)])

def listedEntry (block : Bytes) : ListEntry where
  key := text ((findTag block "Key").getD [])
  size := ((findTag block "Size").map atol).getD 0
  lastModifiedEpochSeconds := ((findTag block "LastModified").map store.parseObjectTimestamp).getD 0

def listedPage (body : Bytes) : ListPage :=
  let truncated := findTag body "IsTruncated" = some (octets "true")
  { truncated
    continuationToken :=
      if truncated then text ((findTag body "NextContinuationToken").getD []) else ""
    entries := (findAllBlocks body "Contents").map store.listedEntry }

def listCall (request : SigV4Request) (headers : List Bytes) : HttpCall where
  method := octets "GET"
  url := store.urlOf request ++ 63 :: queryText request.query
  headers
  errorBody := true
  captureLimit := 8 * 1024 * 1024

def list (container pre continuationToken : String) (limit : Int) : Operation ListPage := do
  if container = "" then throw (err .invalidArgument "S3：容器名不能为空")
  let date := amzDate (← ask .nowEpochSeconds)
  let plain := store.requestFor "GET" (octets container) (store.bucketPath (octets container)) date
    store.emptySha256Hex
  let request := { plain with query := listQuery pre continuationToken limit }
  let headers ← store.sign request date []
  let (status, transfer) ← curlPerform (store.listCall request headers)
  let body := transfer.download.errorBody
  if 400 ≤ status then throw (mapS3Error status body "list")
  pure (store.listedPage body)

end S3BlobStore

end FileService.S3
