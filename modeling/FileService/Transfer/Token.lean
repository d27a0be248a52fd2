import FileService.Common.Crypto
import FileService.Domain.RecordJson
import FileService.Common.JsonText

/-!
# Transfer tokens

A URL for one transfer carries its payload as JSON in base64url, the expiry as
a decimal number, and a signature over both. The message authentication code
and the JSON codec are parameters; a text that is no UTF-8 is no JSON.
-/
namespace FileService.Transfer
open FileService.Common FileService.Common.Crypto FileService.Domain
open FileService.Common.Json.Value (TextCodec)

/-! ## Decimal numbers -/

def digitOctet (d : Nat) : UInt8 := UInt8.ofNat (48 + d)

def decimalNat (n : Nat) : Bytes :=
  if n = 0 then [48] else (Nat.digits 10 n).reverse.map digitOctet

/-- `std::to_string` -/
def decimal (n : Int) : Bytes := if n < 0 then 45 :: decimalNat n.natAbs else decimalNat n.natAbs

def isDigitOctet (c : UInt8) : Bool := decide (48 ≤ c.toNat) && decide (c.toNat ≤ 57)

def isSpaceOctet (c : UInt8) : Bool :=
  c == 32 || (decide (9 ≤ c.toNat) && decide (c.toNat ≤ 13))

theorem not_space_of_digit {c : UInt8} (h : isDigitOctet c = true) : isSpaceOctet c = false := by
  simp only [isDigitOctet, Bool.and_eq_true, decide_eq_true_eq] at h
  have hne : c ≠ 32 := by
    rintro rfl
    exact absurd h (by decide)
  simp only [isSpaceOctet, beq_eq_false_iff_ne.mpr hne, Bool.false_or, Bool.and_eq_false_iff,
    decide_eq_false_iff_not]
  omega

def decimalValue (digits : Bytes) : Nat := digits.foldl (fun v c => v * 10 + (c.toNat - 48)) 0

/-- Whether a text starts with a minus sign, and what follows its sign. -/
def signOf (text : Bytes) : Bool × Bytes :=
  if text.head? = some 45 then (true, text.tail)
  else if text.head? = some 43 then (false, text.tail)
  else (false, text)

/-- `std::stoll`: the number that a text starts with; the other cases are exceptions. -/
def stoll (text : Bytes) : Option Int :=
  let (negative, digits) := signOf (text.dropWhile isSpaceOctet)
  let number := digits.takeWhile isDigitOctet
  let value : Int := if negative then -(decimalValue number : Int) else decimalValue number
  if number = [] ∨ value < -2 ^ 63 ∨ 2 ^ 63 ≤ value then none else some value

/-! ## The codec -/

/-- `crypto::Digest256` -/
abbrev Digest256 := Vector UInt8 32

/-- What the codec calls: `crypto::HmacSha256` with key and data, and the JSON library. -/
structure Primitives where
  hmacSha256 : Bytes → Bytes → Digest256
  json : TextCodec

structure HmacTransferTokenCodec where
  secret : Bytes
  keyId : String := ""
deriving DecidableEq, Repr

/-- The parts of a URL that a request brings back. -/
structure Triple where
  token : Bytes
  expires : Bytes
  signature : Bytes
deriving DecidableEq, Repr

def invalid (message : String) : Error := err .invalidArgument message

def unauthenticated (message : String) : Error := err .unauthenticated message

def isKnownOp (op : String) : Bool := op == "put" || op == "get"

def kKeyDomain : Bytes := octets "fss-transfer-token-v1"

namespace HmacTransferTokenCodec
variable (prims : Primitives) (codec : HmacTransferTokenCodec)

def signingKey : Bytes := toHex (prims.hmacSha256 codec.secret kKeyDomain).toList

/-- What is signed: the token and the expiry, with a dot between them. -/
def signedMessage (token expires : Bytes) : Bytes := token ++ 46 :: expires

def computeSignature (token expires : Bytes) : Bytes :=
  base64UrlEncode (prims.hmacSha256 (codec.signingKey prims) (signedMessage token expires)).toList

/-- The payload; `nonce` is random. -/
def payload (token : TransferToken) (nonce : String) : Json.Value :=
  let fields := ((((((Json.Value.object []).set "partition" (.string token.partition)).set
    "file_id" (.string token.fileId)).set "container" (.string token.container)).set
    "object_key" (.string token.objectKey)).set "zone" (.string (storageZoneName token.zone))).set
    "op" (.string token.op) |>.set "exp" (.integer token.expiresAtEpochSeconds)
  let bound := if codec.keyId ≠ "" then fields.set "key_id" (.string codec.keyId) else fields
  bound.set "nonce" (.string nonce)

/-- The parts that `Encode` puts into the URL. -/
def triple (token : TransferToken) (nonce : String) : Triple :=
  let encoded := base64UrlEncode (octets (prims.json.dump (codec.payload token nonce)))
  let expires := decimal token.expiresAtEpochSeconds
  ⟨encoded, expires, codec.computeSignature prims encoded expires⟩

def urlOf (baseUrl : Bytes) (t : Triple) : Bytes :=
  baseUrl.rdropWhile (· == 47) ++ octets "/v1/transfer/" ++ t.token ++ octets "?exp=" ++ t.expires ++
    octets "&sig=" ++ t.signature

/-- `Encode` -/
def encode (token : TransferToken) (nonce : String) (baseUrl : Bytes) : Result Bytes :=
  if codec.secret = [] then .error (invalid "transfer token 密钥未配置")
  else if token.partition = "" then .error (invalid "TransferToken.partition 不能为空")
  else if token.container = "" then .error (invalid "TransferToken.container 不能为空")
  else if token.objectKey = "" then .error (invalid "TransferToken.object_key 不能为空")
  else if isKnownOp token.op = false then .error (invalid "TransferToken.op 只能是 put / get")
  else if token.expiresAtEpochSeconds ≤ 0 then
    .error (invalid "TransferToken.expires_at_epoch_seconds 必须为正")
  else .ok (urlOf baseUrl (codec.triple prims token nonce))

/-! ## Decoding -/

def text? (value : Json.Value) (key : String) : Option String :=
  (value.find? key).bind Json.Value.asString?

def requireText (value : Json.Value) (key message : String) : Result String :=
  match text? value key with
  | some text => .ok text
  | none => .error (unauthenticated message)

/-- The key id in the payload has to be the configured one, if one is configured. -/
def checkKeyId (found : Option String) : Result Unit :=
  if codec.keyId = "" then .ok ()
  else
    match found with
    | none =>
      .error (unauthenticated ("transfer token 缺少 key_id（当前配置 key_id=" ++ codec.keyId ++ "）"))
    | some keyId =>
      if keyId = codec.keyId then .ok ()
      else .error (unauthenticated ("transfer token 的 key_id 与当前配置不匹配（载荷 " ++ keyId ++
        " / 配置 " ++ codec.keyId ++ "）"))

/-- The expiry in the payload, when the one in the URL says the same and it is not over. -/
def checkExpiry (now : Int) (expires : Bytes) (value : Json.Value) : Result Int :=
  match value.find? "exp" with
  | some (.integer n) =>
    let payloadExp := toInt64 n
    match stoll expires with
    | none => .error (unauthenticated "transfer token 的 exp 不是整数")
    | some queryExp =>
      if queryExp ≠ payloadExp then
        .error (unauthenticated "transfer token 的 exp 与载荷不一致")
      else if payloadExp ≤ now then .error (unauthenticated "transfer token 已过期")
      else .ok payloadExp
  | _ => .error (unauthenticated "transfer token 缺少 exp")

def readPayload (now : Int) (expires : Bytes) (value : Json.Value) : Result TransferToken := do
  let partition ← requireText value "partition" "transfer token 缺少 partition"
  let container ← requireText value "container" "transfer token 缺少 container"
  let objectKey ← requireText value "object_key" "transfer token 缺少 object_key"
  let op ← requireText value "op" "transfer token 的 op 非法"
  if isKnownOp op = false then
    throw (unauthenticated "transfer token 的 op 非法")
  codec.checkKeyId (text? value "key_id")
  let zoneName ← requireText value "zone" "transfer token 缺少 zone"
  match parseStorageZone zoneName with
  | none => throw (unauthenticated "transfer token 的 zone 非法")
  | some zone =>
    let expiresAtEpochSeconds ← checkExpiry now expires value
    return { partition, container, objectKey, op, zone, expiresAtEpochSeconds
             fileId := (text? value "file_id").getD ""
             keyId := (text? value "key_id").getD "" }

/-- `Decode`, at the time `now`. -/
def decode (now : Int) (t : Triple) : Result TransferToken :=
  if codec.secret = [] then .error (invalid "transfer token 密钥未配置")
  else if t.token = [] then .error (unauthenticated "transfer token 为空")
  else if t.expires = [] ∨ t.signature = [] then
    .error (unauthenticated "transfer token 缺少 exp 或 sig")
  else if constantTimeEquals (codec.computeSignature prims t.token t.expires) t.signature = false then
    .error (unauthenticated "transfer token 签名不匹配")
  else
    match base64UrlDecode t.token with
    | none => .error (unauthenticated "transfer token 不是合法的 base64url")
    | some raw =>
      match (textOf raw).map prims.json.parseObject with
      | some (.ok value) => codec.readPayload now t.expires value
      | _ => .error (unauthenticated "transfer token 载荷不是 JSON 对象")

end HmacTransferTokenCodec

end FileService.Transfer
