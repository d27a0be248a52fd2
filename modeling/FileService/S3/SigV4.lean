import FileService.App.ObjectKeyPolicy
import FileService.Common.Percent

/-!
# Signature version 4

The canonical form of a request and the header that signs it. Queries and header
names are sorted, values of one header are joined, and runs of blanks in them
become one space.
-/
namespace FileService.S3
open FileService.Common FileService.Common.Crypto FileService.Domain

/-- The hash functions of the crypto library. -/
structure Hashes where
  sha256 : Bytes → Bytes
  hmac : Bytes → Bytes → Bytes

def Hashes.sha256Hex (hashes : Hashes) (data : Bytes) : Bytes := toHex (hashes.sha256 data)

/-! ## Encoding -/

def isUnreserved (c : UInt8) : Bool :=
  (65 ≤ c && c ≤ 90) || (97 ≤ c && c ≤ 122) || (48 ≤ c && c ≤ 57) ||
    c == 45 || c == 95 || c == 46 || c == 126

/-- `SigV4Encode` -/
def sigV4Encode (value : Bytes) (keepSlash : Bool) : Bytes :=
  Percent.encode (fun c => isUnreserved c || (keepSlash && c == 47)) value

def sigV4EncodePath (path : Bytes) : Bytes := sigV4Encode path true
def sigV4EncodeQuery (value : Bytes) : Bytes := sigV4Encode value false

/-! ## Canonical queries -/

/-- `if (!out.empty()) out.push_back(separator)` before every piece. -/
def joined (separator : UInt8) (pieces : List Bytes) : Bytes :=
  pieces.foldl (fun out piece => (if out.isEmpty then out else out ++ [separator]) ++ piece) []

/-- The order of `std::pair<std::string, std::string>`. -/
def pairLe (a b : Bytes × Bytes) : Bool :=
  decide (a.1 < b.1) || (a.1 == b.1 && !decide (b.2 < a.2))

/-- `CanonicalQuery` -/
def canonicalQuery (query : List (Bytes × Bytes)) : Bytes :=
  let encoded := query.map fun p => (sigV4EncodeQuery p.1, sigV4EncodeQuery p.2)
  joined 38 ((encoded.mergeSort pairLe).map fun p => p.1 ++ 61 :: p.2)

/-! ## Canonical headers -/

def isBlank (c : UInt8) : Bool := c == 32 || c == 9

def trim (text : Bytes) : Bytes := (text.dropWhile isBlank).rdropWhile isBlank

def lower (text : Bytes) : Bytes := text.map fun c => if 65 ≤ c && c ≤ 90 then c + 32 else c

/-- The loop of `CollapseSpaces`. -/
def collapseFrom (inSpace : Bool) (out : Bytes) : Bytes → Bytes
  | [] => out
  | c :: rest =>
    if isBlank c then collapseFrom true (if !inSpace && !out.isEmpty then out ++ [32] else out) rest
    else collapseFrom false (out ++ [c]) rest

def collapseSpaces (text : Bytes) : Bytes :=
  let out := collapseFrom false [] text
  if out.getLast? = some 32 then out.dropLast else out

/-- The names of the headers in the order of `std::map`. -/
def headerNames (headers : List (Bytes × Bytes)) : List Bytes :=
  (headers.map fun h => lower h.1).dedup.mergeSort fun a b => !decide (b < a)

/-- The values of the headers with this name, joined by commas. -/
def joinedValues (headers : List (Bytes × Bytes)) (name : Bytes) : Bytes :=
  [44].intercalate ((headers.filter fun h => lower h.1 == name).map (·.2))

def canonicalValue (headers : List (Bytes × Bytes)) (name : Bytes) : Bytes :=
  collapseSpaces (trim (joinedValues headers name))

/-- The lines of `BuildCanonicalHeaders` for these names. -/
def canonicalBlock (headers : List (Bytes × Bytes)) (names : List Bytes) : Bytes :=
  names.flatMap fun name => name ++ 58 :: canonicalValue headers name ++ [10]

/-! ## Requests -/

structure SigV4Request where
  method : Bytes
  host : Bytes
  path : Bytes
  query : List (Bytes × Bytes) := []
  headers : List (Bytes × Bytes) := []
  payloadSha256Hex : Bytes := octets "UNSIGNED-PAYLOAD"

structure AwsCredentials where
  accessKey : Bytes
  secretKey : Bytes
  sessionToken : Bytes := []

structure SigV4Options where
  region : Bytes := octets "us-east-1"
  service : Bytes := octets "s3"
  forcePathStyle : Bool := true
  endpoint : Bytes
  scheme : Bytes := octets "https"

structure SigV4Signature where
  canonicalRequest : Bytes
  stringToSign : Bytes
  signature : Bytes
  authorization : Bytes
  amzDate : Bytes
  signedHeaders : Bytes

structure SigV4Signer where
  credentials : AwsCredentials
  options : SigV4Options

def hasHeader (headers : List (Bytes × Bytes)) (name : Bytes) : Bool :=
  headers.any fun h => lower h.1 == name

def validateRequest (request : SigV4Request) : Result Unit :=
  if request.method = [] then .error (err .invalidArgument "SigV4：method 不能为空")
  else if request.host = [] then .error (err .invalidArgument "SigV4：host 不能为空")
  else if !hasHeader request.headers (octets "host") then
    .error (err .invalidArgument "SigV4：SignedHeaders 必须包含 host")
  else if !hasHeader request.headers (octets "x-amz-date") then
    .error (err .invalidArgument "SigV4：SignedHeaders 必须包含 x-amz-date")
  else .ok ()

/-- The text that is hashed: the lines of the request, its headers and the hash of its payload. -/
def canonicalRequest (method path : Bytes) (query : Bytes) (headers : List (Bytes × Bytes))
    (names : List Bytes) (payload : Bytes) : Bytes :=
  method ++ 10 :: (sigV4EncodePath path ++ 10 :: (query ++ 10 :: (canonicalBlock headers names ++
    10 :: (joined 59 names ++ 10 :: payload))))

def algorithm : Bytes := octets "AWS4-HMAC-SHA256"
def terminator : Bytes := octets "aws4_request"

/-- `DeriveSigningKey`: each step is keyed with the digest of the one before. -/
def deriveSigningKey (hashes : Hashes) (secretKey date region service : Bytes) : Bytes :=
  hashes.hmac (hashes.hmac (hashes.hmac (hashes.hmac (octets "AWS4" ++ secretKey) date) region)
    service) terminator

namespace SigV4Signer
variable (signer : SigV4Signer)

def scope (amzDate : Bytes) : Bytes :=
  amzDate.take 8 ++ 47 :: (signer.options.region ++ 47 :: (signer.options.service ++ 47 :: terminator))

def hostFor (bucket : Bytes) : Bytes :=
  if signer.options.forcePathStyle || bucket.isEmpty then signer.options.endpoint
  else bucket ++ 46 :: signer.options.endpoint

/-- `SignRequest` -/
def signRequest (hashes : Hashes) (request : SigV4Request) (amzDate : Bytes) :
    Result SigV4Signature := do
  validateRequest request
  if amzDate.length ≠ 16 then
    .error (err .invalidArgument "SigV4：amz_date 必须形如 20130524T000000Z（16 字符）")
  else
    let names := headerNames request.headers
    let canonical := canonicalRequest request.method request.path (canonicalQuery request.query)
      request.headers names request.payloadSha256Hex
    let stringToSign := algorithm ++ 10 :: (amzDate ++ 10 :: (signer.scope amzDate ++ 10 ::
      hashes.sha256Hex canonical))
    let key := deriveSigningKey hashes signer.credentials.secretKey (amzDate.take 8)
      signer.options.region signer.options.service
    let signature := toHex (hashes.hmac key stringToSign)
    let signedHeaders := joined 59 names
    .ok
      { canonicalRequest := canonical
        stringToSign
        signature
        authorization := algorithm ++ octets " Credential=" ++ signer.credentials.accessKey ++
          47 :: (signer.scope amzDate ++ octets ", SignedHeaders=" ++ signedHeaders ++
            octets ", Signature=" ++ signature)
        amzDate
        signedHeaders }

end SigV4Signer

end FileService.S3
