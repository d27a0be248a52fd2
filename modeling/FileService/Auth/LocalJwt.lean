import FileService.Domain.Types
import FileService.Sqlite.LocationWrites
import FileService.Transfer.Token

/-!
# Tokens of callers

A token is accepted when its signature, its times, its issuer, its audience and
its partition are; the roles of a caller come from the token and from a table.
The message authentication code, the JSON reader and the conversion of doubles
that no 64-bit integer holds are parameters.
-/
namespace FileService.Auth
open FileService.Common FileService.Common.Crypto FileService.Domain
open FileService.Common.Json (Value)
open FileService.Sqlite.LocationRepository (truncated)
open FileService.Transfer (Digest256 isSpaceOctet unauthenticated)

/-- `crypto::HmacSha256` with key and data, `json::Parse`, and what the conversion of a double
out of range gives, which the language leaves open. -/
structure Primitives where
  hmacSha256 : Bytes → Bytes → Digest256
  parse : Bytes → Option Value
  outOfRange : UInt64 → Int

structure LocalJwtOptions where
  hmacSecret : Bytes := []
  issuer : String := ""
  audience : String := ""
  verifySignature : Bool := true
  rolesClaim : String := "roles"
  userIdClaim : String := "email"
  partitionClaim : String := "data-partition-id"
  requirePartitionClaim : Bool := true
  localRoles : List (String × List String) := []
  clockSkewSeconds : Int := 5

structure JwtClaims where
  subject : String
  userId : String
  partition : String
  roles : List String
  expiresAtEpochSeconds : Int
  issuedAtEpochSeconds : Int
deriving DecidableEq, Repr

/-! ## Texts -/

/-- `std::tolower` -/
def lowerOctet (c : UInt8) : UInt8 := if 65 ≤ c.toNat ∧ c.toNat ≤ 90 then c + 32 else c

def stripBearer (value : Bytes) : Bytes :=
  let kPrefix := octets "bearer "
  if (value.take kPrefix.length).map lowerOctet = kPrefix then value.drop kPrefix.length else value

def trim (value : Bytes) : Bytes := (value.dropWhile isSpaceOctet).rdropWhile isSpaceOctet

def isSpace (c : Char) : Bool := c == ' ' || (decide (9 ≤ c.toNat) && decide (c.toNat ≤ 13))

def trimText (value : String) : String :=
  String.ofList ((value.toList.dropWhile isSpace).rdropWhile isSpace)

/-! ## Claims -/

section Claims
variable (prims : Primitives) (payload : Value)

/-- `static_cast<std::int64_t>` of a double. -/
def Primitives.seconds (bits : UInt64) : Int :=
  if -2 ^ 63 ≤ truncated bits ∧ truncated bits < 2 ^ 63 then truncated bits
  else prims.outOfRange bits

/-- `NumberClaim`; a claim of another type counts as missing. -/
def numberClaim (name : String) : Option Int :=
  match payload.find? name with
  | some (.integer n) => some (toInt64 n)
  | some (.float bits) => some (prims.seconds bits)
  | _ => none

def stringClaim (name : String) : Option String := (payload.find? name).bind Value.asString?

def audienceMatches (expected : String) : Bool :=
  match payload.find? "aud" with
  | some (.string s) => s == expected
  | some (.array items) => items.any fun item => item.asString? == some expected
  | _ => false

/-- The texts of an array, or the pieces of a text between commas. -/
def rolesFromClaim (claim : String) : List String :=
  match payload.find? claim with
  | some (.array items) => items.filterMap Value.asString?
  | some (.string raw) => ((Text.splitOnChar ',' raw).map trimText).filter (· ≠ "")
  | _ => []

/-- The roles of the table are added to those of the token. -/
def withLocalRoles (options : LocalJwtOptions) (userId : String) (roles : List String) :
    List String :=
  if userId = "" then roles
  else
    ((options.localRoles.lookup userId).getD []).foldl
      (fun roles role => if role ∈ roles then roles else roles ++ [role]) roles

end Claims

/-! ## Verification -/

/-- The parts of a token: what is signed, the signature, the header and the payload. -/
structure Opened where
  signingInput : Bytes
  signature : Bytes
  header : Value
  payload : Value

section Verification
variable (prims : Primitives) (options : LocalJwtOptions)

/-- Step 4 of `Verify`: the three segments, and the JSON objects in the first two. -/
def openToken (token : Bytes) : Result Opened :=
  match token.splitOn 46 with
  | [header, payload, signature] =>
    if header = [] ∨ payload = [] ∨ signature = [] then
      .error (unauthenticated "JWT 格式非法（存在空段）")
    else
      match base64UrlDecode header, base64UrlDecode payload with
      | some headerBytes, some payloadBytes =>
        match prims.parse headerBytes, prims.parse payloadBytes with
        | some (.object h), some (.object p) =>
          .ok ⟨header ++ 46 :: payload, signature, .object h, .object p⟩
        | _, _ => .error (unauthenticated "JWT 的 header/payload 不是合法 JSON 对象")
      | _, _ => .error (unauthenticated "JWT 段不是合法的 base64url")
  | _ => .error (unauthenticated "JWT 格式非法（期望 header.payload.signature 三段）")

/-- Step 5: no other algorithm than HS256. -/
def checkAlgorithm (header : Value) : Result Unit :=
  let algorithm := (stringClaim header "alg").getD ""
  if algorithm = "HS256" then .ok ()
  else
    .error (unauthenticated ("不支持的 JWT 算法（只接受 HS256）：" ++
      (if algorithm = "" then "<缺失>" else algorithm)))

/-- Step 6: the signature. -/
def checkSignature (signingInput signature : Bytes) : Result Unit :=
  if options.verifySignature then
    match base64UrlDecode signature with
    | none => .error (unauthenticated "JWT 签名不是合法的 base64url")
    | some provided =>
      let expected := (prims.hmacSha256 options.hmacSecret signingInput).toList
      if provided.length ≠ expected.length then
        .error (unauthenticated "JWT 签名长度非法（HS256 期望 32 字节）")
      else if constantTimeEquals expected provided then .ok ()
      else .error (unauthenticated "JWT 验签失败")
  else .ok ()

/-- The times of step 7; the sums have 64 bits. -/
def checkTimes (now : Int) (payload : Value) : Result Int :=
  match numberClaim prims payload "exp" with
  | none => .error (unauthenticated "JWT 缺少 exp（拒绝无过期时间的 token）")
  | some expires =>
    if toInt64 (expires + options.clockSkewSeconds) < now then
      .error (unauthenticated "JWT 已过期")
    else
      match numberClaim prims payload "nbf" with
      | none => .ok expires
      | some notBefore =>
        if toInt64 (now + options.clockSkewSeconds) < notBefore then
          .error (unauthenticated "JWT 尚未生效（nbf）")
        else .ok expires

/-- The issuer and the audience of step 7. -/
def checkParties (payload : Value) : Result Unit :=
  if options.issuer ≠ "" ∧ (stringClaim payload "iss").getD "" ≠ options.issuer then
    .error (unauthenticated "JWT 的 iss 不匹配")
  else if options.audience ≠ "" ∧ audienceMatches payload options.audience = false then
    .error (unauthenticated "JWT 的 aud 不匹配")
  else .ok ()

def claimsOf (payload : Value) (expires : Int) : JwtClaims :=
  let userId := (stringClaim payload options.userIdClaim).getD ""
  { subject := (stringClaim payload "sub").getD ""
    userId
    partition := (stringClaim payload options.partitionClaim).getD ""
    roles := withLocalRoles options userId (rolesFromClaim payload options.rolesClaim)
    expiresAtEpochSeconds := expires
    issuedAtEpochSeconds := (numberClaim prims payload "iat").getD 0 }

/-- Step 8: the token belongs to the partition of the request. -/
def checkPartition (claims : JwtClaims) (requestPartition : String) : Result Unit :=
  if options.requirePartitionClaim ∧ requestPartition ≠ "" then
    if claims.partition = "" then
      .error (unauthenticated ("JWT 缺少 " ++ options.partitionClaim ++ " claim（租户绑定的依据）"))
    else if claims.partition ≠ requestPartition then
      .error (err .permissionDenied
        ("JWT 的 " ++ options.partitionClaim ++ " 与请求的 data-partition-id 不一致"))
    else .ok ()
  else .ok ()

/-- `Verify`, at the time `now`. -/
def verify (now : Int) (bearerToken : Bytes) (requestPartition : String) : Result JwtClaims := do
  let token := trim (stripBearer bearerToken)
  if token = [] then throw (unauthenticated "Missing authorization token")
  -- without a key every token is refused
  if options.verifySignature ∧ options.hmacSecret = [] then
    throw (unauthenticated "本实例未配置 JWT 验签密钥，拒绝所有 token（fail-closed）")
  let opened ← openToken prims token
  checkAlgorithm opened.header
  checkSignature prims options opened.signingInput opened.signature
  let expires ← checkTimes prims options now opened.payload
  checkParties options opened.payload
  let claims := claimsOf prims options opened.payload expires
  checkPartition options claims requestPartition
  return claims

def authorize (now : Int) (requiredRole requestPartition : String) (bearerToken : Bytes) :
    Result Unit := do
  let claims ← verify prims options now bearerToken requestPartition
  if requiredRole ∈ claims.roles then return ()
  throw (err .permissionDenied ("调用方缺少角色：" ++ requiredRole))

def authorizeAny (now : Int) (requiredRoles : List String) (requestPartition : String)
    (bearerToken : Bytes) : Result Unit := do
  if requiredRoles = [] then throw (err .internal "AuthorizeAny 要求至少一个角色")
  let claims ← verify prims options now bearerToken requestPartition
  if ∃ role ∈ requiredRoles, role ∈ claims.roles then return ()
  throw (err .permissionDenied ("调用方缺少任一必需角色：" ++ ", ".intercalate requiredRoles))

end Verification

end FileService.Auth
