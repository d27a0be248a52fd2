import FileService.App.ObjectKeyPolicy

/-!
# Steps shared by the use cases

Authorization, audit, events, physical references, checksums and copies. A call
whose result the source drops is a call whose reply is not looked at.
-/
namespace FileService.App
open FileService.Common FileService.Domain FileService.Interaction

/-- `AuthorizeCaller` with a required partition. -/
def authorizeCaller (caller : CallerContext) (role : String) : Action Unit := do
  if caller.partition = "" then Action.fail (err .unauthenticated "Missing partitionID")
  Action.tryResult (← Action.ask (.service (.authorize role caller.partition caller.bearerToken)))

def authorizeCallerAny (caller : CallerContext) (roles : List String) : Action Unit := do
  if caller.partition = "" then Action.fail (err .unauthenticated "Missing partitionID")
  if roles.isEmpty then Action.fail (err .internal "AuthorizeCallerAny 要求至少一个角色")
  Action.tryResult
    (← Action.ask (.service (.authorizeAny roles caller.partition caller.bearerToken)))

/-- `RecordAudit`: a failed audit is an error only when the deployment says so. -/
def recordAudit (u : UseCasePorts) (operation : String) (caller : CallerContext)
    (objectId : String) (success : Bool) : Action Unit := do
  let millis ← Action.ask .nowEpochMillis
  match ← Action.ask (.service (.recordAudit
    { operation
      user := caller.userId
      partition := caller.partition
      objectId
      result := if success then "success" else "failure"
      epochMillis := millis
      correlationId := caller.correlationId })) with
  | .ok _ => pure ()
  | .error e =>
    if u.auditFailClosed then
      Action.fail (err .internal ("审计写入失败（audit_fail_closed=true）：" ++ e.message))

/-- A step whose result is dropped. -/
def dropResult {α : Type} (x : Action α) : Action Unit := do
  let _ ← Action.attempt x

def recordFailure (u : UseCasePorts) (operation : String) (caller : CallerContext)
    (objectId : String) : Action Unit :=
  dropResult (recordAudit u operation caller objectId false)

/-- `AuditGuard`: the body tells the object id it reported success with, if it did. -/
def audited {α : Type} (u : UseCasePorts) (caller : CallerContext) (operation objectId : String)
    (body : Action (Option String × α)) : Action α :=
  body.exitingWith fun out => match out with
    | .error .diverged => .ret (.error .diverged)
    | .error exit => ExceptT.run do
      recordFailure u (operation ++ "Failure") caller objectId
      throw exit
    | .ok (none, a) => ExceptT.run do
      recordFailure u (operation ++ "Failure") caller objectId
      return a
    | .ok (some successId, a) => ExceptT.run do
      recordAudit u (operation ++ "Success") caller successId true
      return a

def publishStatus (caller : CallerContext) (status : String) (version : Int) (recordId : String) :
    Action Unit := do
  let _ ← Action.ask (.service (.publishStatusChanged "status-changed"
    { recordId, partition := caller.partition, status, version }))

def publishDatasetDetails (caller : CallerContext) (recordId : String) (version : Int) :
    Action Unit := do
  let millis ← Action.ask .nowEpochMillis
  let _ ← Action.ask (.service (.publishDatasetDetails "datasetDetails"
    { partition := caller.partition
      correlationId := caller.correlationId
      datasetId := recordId
      datasetVersionId := toString version
      timestampMillis := millis }))

def extraContainer : String := "container"
def extraObjectKey : String := "object_key"
def extraDriverName : String := "driver_name"

/-- What a location record says about its object. -/
inductive PhysicalRef where
  | ref (ref : ObjectRef)
  | incomplete
  | notText
deriving DecidableEq

/-- The members of `extra` that name the object, if there are two and both are texts. -/
def physicalRef (location : FileLocation) : PhysicalRef :=
  match location.extra.find? extraContainer, location.extra.find? extraObjectKey with
  | some c, some k =>
    match c.asString?, k.asString? with
    | some container, some key => .ref { container, key }
    | _, _ => .notText
  | _, _ => .incomplete

/-- `ObjectRefFromLocation`; a member of another type makes the JSON library throw. -/
def objectRefFromLocation (location : FileLocation) : Action ObjectRef :=
  match physicalRef location with
  | .ref ref => pure ref
  | .incomplete =>
    Action.fail (err .internal "位置记录缺少物理引用（extra.container / extra.object_key）")
  | .notText => throw (.exception "json.exception.type_error.302")

inductive ChecksumAlgorithm where
  | sha256
  | sha1
  | md5
deriving DecidableEq

def normalizeAlgorithmName (name : String) : String := Text.normalizedName ['-', '_', ' '] name

@[irreducible] def parseChecksumAlgorithm (name : String) : Option ChecksumAlgorithm :=
  let normalized := normalizeAlgorithmName name
  if normalized = "sha256" then some .sha256
  else if normalized = "sha1" then some .sha1
  else if normalized = "md5" then some .md5
  else none

def canonicalChecksumName : ChecksumAlgorithm → String
  | .sha256 => "SHA256"
  | .sha1 => "SHA1"
  | .md5 => "MD5"

def checksumHexLength : ChecksumAlgorithm → Nat
  | .sha256 => 64
  | .sha1 => 40
  | .md5 => 32

def isHexDigit (c : Char) : Bool := c.isDigit || ('a' ≤ c && c ≤ 'f') || ('A' ≤ c && c ≤ 'F')

@[irreducible] def isHexDigestOf (text : String) (algorithm : ChecksumAlgorithm) : Bool :=
  Text.byteSize text = checksumHexLength algorithm && text.toList.all isHexDigit

/-- `ComputeChecksumStreaming` with SHA-256. -/
def computeChecksumStreaming (u : UseCasePorts) (partition : String) (ref : ObjectRef)
    (zone : StorageZone) : Action String := do
  let store ← Action.tryResult (← Action.ask (.forPartition partition zone))
  let data ← Action.tryResult (← Action.ask (.blobs store (.get ref {})))
  return u.sha256Hex data

def readChunkBytes : Nat := 16 * 1024

/-- `ByteSource::ReadAll` over a `StoreByteSource`: one ranged read a chunk. Each round reads
at least one byte of the announced size, so `size + 1` rounds reach its end. -/
def readAll (store : StoreId) (ref : ObjectRef) (size : Nat) : Nat → Nat → Bytes → Action Bytes
  | 0, _, data => pure data
  | rounds + 1, offset, data =>
    if size ≤ offset then pure data
    else do
      let wanted := min readChunkBytes (size - offset)
      let chunk ← Action.tryResult
        (← Action.ask (.blobs store (.get ref { offset, length := wanted })))
      if wanted < chunk.length then Action.fail (err .internal "BufferSink 缓冲溢出")
      else if chunk.isEmpty then pure data
      else readAll store ref size rounds (offset + chunk.length) (data ++ chunk)

/-- `CopyBetweenZones` -/
def copyBetweenZones (partition : String) (source target : ObjectRef)
    (sourceZone targetZone : StorageZone) : Action ObjectStat := do
  let fromStore ← Action.tryResult (← Action.ask (.forPartition partition sourceZone))
  let toStore ← Action.tryResult (← Action.ask (.forPartition partition targetZone))
  Action.tryResult (← Action.ask (.blobs toStore (.ensureContainer target.container)))
  if fromStore = toStore then
    Action.tryResult (← Action.ask (.blobs toStore (.copy source target)))
  else
    let stat ← Action.tryResult (← Action.ask (.blobs fromStore (.stat source)))
    let size := stat.size.toNat
    let data ← readAll fromStore source size (size + 1) 0 []
    Action.tryResult (← Action.ask (.blobs toStore (.put target data {})))
    Action.tryResult (← Action.ask (.blobs toStore (.stat target)))

/-- `RollbackCreatedObject`: the object goes unless a lookup finds a record of the source. -/
def rollbackCreatedObject (u : UseCasePorts) (caller : CallerContext) (target : ObjectRef)
    (fileSource recordId : String) : Action Unit := do
  match ← Action.ask (.metadata (.getLatestByFileSource caller.partition fileSource)) with
  | .ok _ => pure ()
  | .error _ =>
    match ← Action.ask (.forPartition caller.partition .persistent) with
    | .error _ => pure ()
    | .ok store =>
      let _ ← Action.ask (.blobs store (.remove target))
  publishStatus caller "FAILED" 0 recordId
  recordFailure u "createMetadataFailure" caller recordId

/-- `ReturnExistingRecord` -/
def returnExistingRecord (u : UseCasePorts) (caller : CallerContext)
    (existing : FileMetadataRecord) : Action String := do
  publishStatus caller "SUCCESS" existing.version existing.id
  publishDatasetDetails caller existing.id existing.version
  recordAudit u "createMetadataSuccess" caller existing.id true
  return existing.id

/-- The loop of `WaitForExistingClaim`, for at most `polls` rounds. -/
def pollExistingClaim (u : UseCasePorts) (caller : CallerContext) (fileSource : String)
    (deadline : Int) : Nat → Action String
  | 0 => throw .diverged
  | polls + 1 => do
    match ← Action.ask (.metadata (.getLatestByFileSource caller.partition fileSource)) with
    | .ok existing => returnExistingRecord u caller existing
    | .error _ =>
      let now ← Action.ask .nowSteadyMillis
      if deadline ≤ now then
        Action.fail (err .unavailable "另一实例正在登记同一 fileSource（claiming 中），请重试")
      else
        Action.ask (.sleepFor (min (deadline - now) 50))
        pollExistingClaim u caller fileSource deadline polls

/-- `WaitForExistingClaim` -/
def waitForExistingClaim (polls : Nat) (u : UseCasePorts) (caller : CallerContext)
    (fileSource : String) : Action String := do
  let now ← Action.ask .nowSteadyMillis
  pollExistingClaim u caller fileSource (now + 2000) polls

def leaseEnabled (u : UseCasePorts) : Bool := u.leasesEnabled && u.leasesWired

def leaseTtlMillis (u : UseCasePorts) : Int :=
  if 0 < u.leaseTtlSeconds then u.leaseTtlSeconds * 1000 else 1000

def leaseTaken : Error := err .unavailable "该 fileSource 的在途上传已被其它实例占用"
def leaseNotAcquired (e : Error) : Error := err .unavailable ("获取在途租约失败：" ++ e.message)

/-- `EnsureLeaseOwnership` -/
def ensureLeaseOwnership (u : UseCasePorts) (caller : CallerContext) (fileSource : String) :
    Action Unit :=
  if !leaseEnabled u then pure ()
  else do
    match ← Action.ask (.leases (.renew caller.partition fileSource u.instanceId
      (leaseTtlMillis u))) with
    | .ok _ => pure ()
    | .error e =>
      if e.kind ≠ .notFound ∧ e.kind ≠ .permissionDenied then
        Action.fail (err .unavailable ("续租在途租约失败：" ++ e.message))
      else
        match ← Action.ask (.leases (.acquire caller.partition fileSource u.instanceId
          (leaseTtlMillis u))) with
        | .ok _ => pure ()
        | .error e =>
          Action.fail (if e.kind = .unavailable then leaseTaken else leaseNotAcquired e)

/-- `ReleaseNow` of the upload lease guard: stop renewing, then release. -/
def releaseLease (u : UseCasePorts) (caller : CallerContext) (fileSource recordId : String)
    (renewer : Nat) : Action Unit := do
  Action.ask (.renewer (.stop renewer))
  match ← Action.ask (.leases (.release caller.partition fileSource u.instanceId)) with
  | .ok _ => pure ()
  | .error _ => recordFailure u "createMetadataLeaseReleaseFailure" caller recordId

end FileService.App
